import StoolapMariadb.Ddl.Text

namespace StoolapMariadb.Ddl

/-! Each statement's text reads back as the statement. -/

open Spelling
open Lexer (Token)
open Parsing

def commas {α : Type} (write : α → List Token) : List α → List Token
  | [] => []
  | a :: all => write a ++ all.flatMap fun b => comma :: write b

def namesTokens (names : List String) : List Token :=
  .symbol .lparen :: (commas (fun text => [ident text]) names ++ [.symbol .rparen])

def typeTokens : DataType → List Token
  | .integer => [word "INTEGER"]
  | .float => [word "FLOAT"]
  | .text => [word "TEXT"]
  | .boolean => [word "BOOLEAN"]

def ColumnClause.tokens (column : ColumnClause) : List Token :=
  ident column.name :: (typeTokens column.dataType ++ ((if column.notNull then [word "NOT", word "NULL"] else []) ++
    ((if column.primaryKey then [word "PRIMARY", word "KEY"] else []) ++
      (if column.autoIncrement then [word "AUTO_INCREMENT"] else []))))

def KeyClause.tokens : KeyClause → List Token
  | .primaryKey columns => word "PRIMARY" :: word "KEY" :: namesTokens columns
  | .unique columns => word "UNIQUE" :: namesTokens columns

def actionTokens : String → List Token
  | "RESTRICT" => [word "RESTRICT"]
  | "CASCADE" => [word "CASCADE"]
  | "NO ACTION" => [word "NO", word "ACTION"]
  | "SET NULL" => [word "SET", word "NULL"]
  | "SET DEFAULT" => [word "SET", word "DEFAULT"]
  | _ => []

def eventTokens (event : String) : Option String → List Token
  | none => []
  | some action => word "ON" :: word event :: actionTokens action

def parentColumnTokens : Option String → List Token
  | none => []
  | some column => [.symbol .lparen, ident column, .symbol .rparen]

def ForeignKeyClause.tokens (key : ForeignKeyClause) : List Token :=
  word "FOREIGN" :: word "KEY" :: .symbol .lparen :: ident key.column :: .symbol .rparen :: word "REFERENCES" ::
    ident key.parent :: (parentColumnTokens key.parentColumn ++ (eventTokens "DELETE" key.onDelete ++
      eventTokens "UPDATE" key.onUpdate))

def KeyClause.columns : KeyClause → List String
  | .primaryKey columns | .unique columns => columns

section Spelled

theorem quote_spells (name : String) : Spells (quote name) [ident name] := Spells.name name

/-- Names, or anything, behind commas. -/
theorem join_spells {α : Type} {text : α → String} {write : α → List Token} {all : List α} (some_ : all ≠ [])
    (each : ∀ a ∈ all, Spells (text a) (write a)) : Spells (join ", " (all.map text)) (commas write all) := by
  cases all with
  | nil => exact absurd rfl some_
  | cons a all => exact Spells.join [some comma, none] (by decide) (by decide) each

theorem columnsSql_spells {columns : List String} (some_ : columns ≠ []) :
    Opens (columnsSql columns) (namesTokens columns) := by
  have names := join_spells some_ fun name _ => quote_spells name
  have closed : Opens ")" [.symbol .rparen] := .literal [some (.symbol .rparen)] (by decide)
  exact .lead [some (.symbol .lparen)] (by decide) (by decide) (names.append closed)

theorem typeSql_opens (dataType : DataType) : Opens (typeSql dataType) (typeTokens dataType) := by
  cases dataType with
  | integer => exact .literal [none, some (word "INTEGER")] (by decide)
  | float => exact .literal [none, some (word "FLOAT")] (by decide)
  | text => exact .literal [none, some (word "TEXT")] (by decide)
  | boolean => exact .literal [none, some (word "BOOLEAN")] (by decide)

theorem if_opens {condition : Bool} {text : String} {spelled : List Token} (opens : Opens text spelled) :
    Opens (if condition then text else "") (if condition then spelled else []) := by
  cases condition with
  | true => exact opens
  | false => exact .nil

theorem ColumnClause.spells (column : ColumnClause) : Spells column.sql column.tokens := by
  have notNull : Opens " NOT NULL" [word "NOT", word "NULL"] :=
    .literal [none, some (word "NOT"), none, some (word "NULL")] (by decide)
  have primary : Opens " PRIMARY KEY" [word "PRIMARY", word "KEY"] :=
    .literal [none, some (word "PRIMARY"), none, some (word "KEY")] (by decide)
  have auto : Opens " AUTO_INCREMENT" [word "AUTO_INCREMENT"] := .literal [none, some (word "AUTO_INCREMENT")] (by decide)
  exact (quote_spells column.name).append ((typeSql_opens column.dataType).append
    ((if_opens notNull).append ((if_opens primary).append (if_opens auto))))

theorem KeyClause.opens {clause : KeyClause} (some_ : clause.columns ≠ []) : Opens clause.sql (comma :: clause.tokens) := by
  cases clause with
  | primaryKey columns =>
      have keys : Opens ", PRIMARY KEY " [comma, word "PRIMARY", word "KEY"] :=
        .literal [some comma, none, some (word "PRIMARY"), none, some (word "KEY"), none] (by decide)
      exact keys.append (columnsSql_spells some_)
  | unique columns =>
      have keys : Opens ", UNIQUE " [comma, word "UNIQUE"] :=
        .literal [some comma, none, some (word "UNIQUE"), none] (by decide)
      exact keys.append (columnsSql_spells some_)

/-- The actions that `foreignKey` writes. -/
def actions : List String := ["RESTRICT", "NO ACTION", "CASCADE", "SET NULL", "SET DEFAULT"]

theorem action_opens {action : String} (known : action ∈ actions) : Opens (" " ++ action) (actionTokens action) := by
  simp only [actions, List.mem_cons, List.not_mem_nil, or_false] at known
  rcases known with rfl | rfl | rfl | rfl | rfl
  · exact .literal [none, some (word "RESTRICT")] (by decide)
  · exact .literal [none, some (word "NO"), none, some (word "ACTION")] (by decide)
  · exact .literal [none, some (word "CASCADE")] (by decide)
  · exact .literal [none, some (word "SET"), none, some (word "NULL")] (by decide)
  · exact .literal [none, some (word "SET"), none, some (word "DEFAULT")] (by decide)

theorem actionSql_opens {event : String} (isWord : opens (" ON " ++ event) [none, some (word "ON"), none, some (word event)] = true)
    {action : Option String} (known : ∀ action_ ∈ action, action_ ∈ actions) :
    Opens (actionSql event action) (eventTokens event action) := by
  cases action with
  | none => exact .nil
  | some action =>
      have whole := (Opens.literal _ isWord).append (action_opens (known action rfl))
      rw [String.append_assoc] at whole
      exact whole

theorem parentColumnSql_opens (column : Option String) : Opens (parentColumnSql column) (parentColumnTokens column) := by
  cases column with
  | none => exact .nil
  | some column =>
      have closed : Opens ")" [.symbol .rparen] := .literal [some (.symbol .rparen)] (by decide)
      exact .lead [none, some (.symbol .lparen)] (by decide) (by decide) ((quote_spells column).append closed)

/-- What `foreignKey` makes. -/
def ForeignKeyClause.Formed (key : ForeignKeyClause) : Prop :=
  (∀ action ∈ key.onDelete, action ∈ actions) ∧ ∀ action ∈ key.onUpdate, action ∈ actions

theorem ForeignKeyClause.opens {key : ForeignKeyClause} (formed : key.Formed) : Opens key.sql (comma :: key.tokens) := by
  have onDelete := @actionSql_opens "DELETE" (by decide) _ formed.1
  have onUpdate := @actionSql_opens "UPDATE" (by decide) _ formed.2
  have parent := (quote_spells key.parent).append
    ((parentColumnSql_opens key.parentColumn).append (onDelete.append onUpdate))
  refine .lead [some comma, none, some (word "FOREIGN"), none, some (word "KEY"), none, some (.symbol .lparen)]
    (by decide) (by decide) ((quote_spells key.column).append ?_)
  exact .lead [some (.symbol .rparen), none, some (word "REFERENCES"), none] (by decide) (by decide) parent

theorem concat_opens {α : Type} {text : α → String} {write : α → List Token} {all : List α}
    (each : ∀ a ∈ all, Opens (text a) (comma :: write a)) :
    Opens (concat (all.map text)) (all.flatMap fun a => comma :: write a) := by
  induction all with
  | nil => exact .nil
  | cons a all ih =>
      obtain ⟨here, others⟩ := List.forall_mem_cons.mp each
      exact here.append (ih others)

/-- What `createStatement` makes of columns and keys that are there. -/
structure CreateTable.Formed (statement : CreateTable) : Prop where
  some_ : statement.columns ≠ []
  keys : ∀ clause ∈ statement.keyClauses, clause.columns ≠ []
  foreignKeys : ∀ key ∈ statement.foreignKeys, key.Formed

def ifNotExistsTokens (ifNotExists : Bool) : List Token :=
  if ifNotExists then [word "IF", word "NOT", word "EXISTS"] else []

def CreateTable.tokens (statement : CreateTable) : List Token :=
  word "CREATE" :: word "TABLE" :: (ifNotExistsTokens statement.ifNotExists ++ (ident statement.table ::
    .symbol .lparen :: (commas ColumnClause.tokens statement.columns ++
      ((statement.keyClauses.flatMap fun clause => comma :: clause.tokens) ++
        ((statement.foreignKeys.flatMap fun key => comma :: key.tokens) ++ [.symbol .rparen])))))

def CreateIndex.tokens (statement : CreateIndex) : List Token :=
  word "CREATE" :: word "INDEX" :: (ifNotExistsTokens true ++ (ident statement.name :: word "ON" ::
    ident statement.table :: namesTokens statement.columns))

def Statement.tokens : Statement → List Token
  | .createTable statement => statement.tokens
  | .createIndex statement => statement.tokens
  | .dropTable table => [word "DROP", word "TABLE", word "IF", word "EXISTS", ident table]
  | .renameTable table newName => [word "ALTER", word "TABLE", ident table, word "RENAME", word "TO", ident newName]

def Statement.Formed : Statement → Prop
  | .createTable statement => statement.Formed
  | .createIndex statement => statement.columns ≠ []
  | .dropTable _ | .renameTable _ _ => True

theorem CreateTable.spells {statement : CreateTable} (formed : statement.Formed) :
    Spells statement.sql statement.tokens := by
  have closed : Opens ")" [.symbol .rparen] := .literal [some (.symbol .rparen)] (by decide)
  have keys := concat_opens fun clause member => KeyClause.opens (formed.keys clause member)
  have foreignKeys := concat_opens fun key member => ForeignKeyClause.opens (formed.foreignKeys key member)
  have columns := join_spells formed.some_ fun column _ => ColumnClause.spells column
  have body : Opens (" (" ++ _) _ := .lead [none, some (.symbol .lparen)] (by decide) (by decide)
    (columns.append (keys.append (foreignKeys.append closed)))
  have named := (quote_spells statement.table).append body
  unfold CreateTable.sql CreateTable.tokens
  refine .lead [some (word "CREATE"), none, some (word "TABLE"), none] (by decide) ?_
  cases statement.ifNotExists with
  | true => exact .lead [some (word "IF"), none, some (word "NOT"), none, some (word "EXISTS"), none] (by decide) named
  | false =>
      rw [if_neg Bool.false_ne_true, String.empty_append]
      exact named

theorem Statement.spells {statement : Statement} (formed : statement.Formed) : Spells statement.sql statement.tokens := by
  cases statement with
  | createTable statement => exact CreateTable.spells formed
  | createIndex statement =>
      have space : Opens (" " ++ columnsSql statement.columns) (namesTokens statement.columns) :=
        .lead [none] (by decide) (by decide) (columnsSql_spells formed).spells
      refine .lead [some (word "CREATE"), none, some (word "INDEX"), none, some (word "IF"), none, some (word "NOT"), none,
        some (word "EXISTS"), none] (by decide) ((quote_spells statement.name).append ?_)
      exact .lead [none, some (word "ON"), none] (by decide) (by decide) ((quote_spells statement.table).append space)
  | dropTable table =>
      exact .lead [some (word "DROP"), none, some (word "TABLE"), none, some (word "IF"), none, some (word "EXISTS"), none]
        (by decide) (quote_spells table)
  | renameTable table newName =>
      refine .lead [some (word "ALTER"), none, some (word "TABLE"), none] (by decide) ((quote_spells table).append ?_)
      exact .lead [none, some (word "RENAME"), none, some (word "TO"), none] (by decide) (by decide) (quote_spells newName)

end Spelled

section Read

variable {rest : List Token}

theorem name_reads (text : String) : Reads (fun _ => parseName) (ident text :: rest) text rest := by
  refine .next (.always ?_)
  simp only [ident, decode_utf8]
  rfl

theorem parens_reads {α : Type} {inside : Nat → Parser Token α} {tokens : List Token} {value : α}
    (reads : Reads inside tokens value (.symbol .rparen :: rest)) :
    Reads (fun fuel => parseParens (inside fuel)) (.symbol .lparen :: tokens) value rest :=
  .expect (.bind reads (.expect .pure))

theorem no_comma (rest : List Token) : (Token.symbol .rparen :: rest).head? ≠ some comma := by simp [comma]

theorem names_reads {names : List String} (some_ : names ≠ []) :
    Reads parseNames (namesTokens names ++ rest) names rest := by
  cases names with
  | nil => exact absurd rfl some_
  | cons text names =>
      have each := @separated_reads _ _ _ (.symbol .rparen :: rest) _ comma (fun _ => parseName) (fun text => [ident text]) id
        (fun _ => True) text names (fun text _ rest _ => name_reads text) (fun _ => trivial) trivial (no_comma rest)
      rw [List.map_id] at each
      have tokens : namesTokens (text :: names) ++ rest = .symbol .lparen :: ([ident text] ++
          (names.flatMap (fun text => comma :: [ident text]) ++ .symbol .rparen :: rest)) := by
        simp [namesTokens, commas]
      rw [tokens]
      exact parens_reads each

theorem type_reads (dataType : DataType) : Reads (fun _ => parseType) (typeTokens dataType ++ rest) dataType rest := by
  cases dataType <;> exact .always rfl

/-- Two words behind each other, or neither. -/
theorem optionally_reads {first : Token} {one : Parser Token Unit} {more : List Token} {condition : Bool}
    (reads : one (more ++ rest) = some ((), rest)) (absent : rest.head? ≠ some first) :
    Reads (fun _ => optionally first one) ((if condition then first :: more else []) ++ rest)
      (if condition then some () else none) rest := by
  cases condition with
  | true => exact .optionally (.always reads)
  | false => exact .notThere absent

/-- A comma or the end of the list. -/
def Ends (rest : List Token) : Prop := ∃ token more, rest = token :: more ∧ (token = comma ∨ token = .symbol .rparen)

theorem Ends.not_word (ends : Ends rest) (text : String) : rest.head? ≠ some (word text) := by
  obtain ⟨token, more, rfl, rfl | rfl⟩ := ends <;> simp [comma, word]

theorem if_head {condition : Bool} {first token : Token} {more : List Token} (other : first ≠ token)
    (later : rest.head? ≠ some token) : ((if condition then first :: more else []) ++ rest).head? ≠ some token := by
  cases condition with
  | true => simpa using other
  | false => exact later

theorem words_ne {left right : String} (other : utf8 left ≠ utf8 right) : word left ≠ word right := by
  simpa [word] using other

theorem column_reads (column : ColumnClause) (ends : Ends rest) :
    Reads (fun _ => parseColumn) (column.tokens ++ rest) column rest := by
  have isSome (condition : Bool) : (if condition then some () else none).isSome = condition := by cases condition <;> rfl
  have auto := @optionally_reads rest (word "AUTO_INCREMENT") (return ()) [] column.autoIncrement rfl (ends.not_word _)
  have primaryEnds := @if_head rest column.autoIncrement (word "AUTO_INCREMENT") (word "PRIMARY") []
    (words_ne (by decide)) (ends.not_word _)
  have primary := @optionally_reads _ (word "PRIMARY") (expect (word "KEY")) [word "KEY"] column.primaryKey rfl primaryEnds
  have notNullEnds := @if_head _ column.primaryKey (word "PRIMARY") (word "NOT") [word "KEY"] (words_ne (by decide))
    (@if_head rest column.autoIncrement (word "AUTO_INCREMENT") (word "NOT") [] (words_ne (by decide)) (ends.not_word _))
  have notNull := @optionally_reads _ (word "NOT") (expect (word "NULL")) [word "NULL"] column.notNull rfl notNullEnds
  have reads : Reads (fun _ => parseColumn) (column.tokens ++ rest)
      { name := column.name, dataType := column.dataType
        notNull := (if column.notNull then some () else none).isSome
        primaryKey := (if column.primaryKey then some () else none).isSome
        autoIncrement := (if column.autoIncrement then some () else none).isSome } rest := by
    unfold ColumnClause.tokens
    rw [List.cons_append, List.append_assoc, List.append_assoc, List.append_assoc]
    exact .bind (name_reads column.name) (.bind (type_reads column.dataType) (.bind notNull (.bind primary (.map auto))))
  rw [isSome, isSome, isSome] at reads
  exact reads

theorem action_reads {action : String} (known : action ∈ actions) :
    Reads (fun _ => parseAction) (actionTokens action ++ rest) action rest := by
  simp only [actions, List.mem_cons, List.not_mem_nil, or_false] at known
  rcases known with rfl | rfl | rfl | rfl | rfl <;> exact .always rfl

/-- The events of a key, those it names in order. -/
theorem events_each {onDelete onUpdate : Option String} (knownDelete : ∀ action ∈ onDelete, action ∈ actions)
    (knownUpdate : ∀ action ∈ onUpdate, action ∈ actions) (ends : Ends rest) :
    Each (fun token => token = some (word "ON")) (fun _ => parseEvent)
      (eventTokens "DELETE" onDelete ++ (eventTokens "UPDATE" onUpdate ++ rest))
      (onDelete.toList.map (word "DELETE", ·) ++ onUpdate.toList.map (word "UPDATE", ·)) rest := by
  have stops : Each (fun token => token = some (word "ON")) (fun _ => parseEvent) rest [] rest :=
    .nil (by simpa using ends.not_word "ON")
  have update : Each (fun token => token = some (word "ON")) (fun _ => parseEvent) (eventTokens "UPDATE" onUpdate ++ rest)
      (onUpdate.toList.map (word "UPDATE", ·)) rest := by
    cases onUpdate with
    | none => exact stops
    | some action => exact .cons (by simp [eventTokens]) (.expect (.next (.map (action_reads (knownUpdate action rfl))))) stops
  cases onDelete with
  | none => exact update
  | some action =>
      refine .cons (by simp [eventTokens]) (.expect (.next (.map (action_reads (knownDelete action rfl))))) ?_
      exact update

theorem lookup_events (onDelete onUpdate : Option String) :
    (onDelete.toList.map (word "DELETE", ·) ++ onUpdate.toList.map (word "UPDATE", ·)).lookup (word "DELETE") = onDelete ∧
      (onDelete.toList.map (word "DELETE", ·) ++ onUpdate.toList.map (word "UPDATE", ·)).lookup (word "UPDATE") =
        onUpdate := by
  have other : (word "UPDATE" == word "DELETE") = false := by decide
  have another : (word "DELETE" == word "UPDATE") = false := by decide
  cases onDelete <;> cases onUpdate <;> simp [List.lookup_cons, other, another]

theorem head_on {event : String} (action : Option String) {token : Token} (other : word "ON" ≠ token)
    (later : rest.head? ≠ some token) : (eventTokens event action ++ rest).head? ≠ some token := by
  cases action with
  | none => exact later
  | some action => simpa [eventTokens] using other

theorem foreignKey_reads {key : ForeignKeyClause} (formed : key.Formed) (ends : Ends rest)
    (noParen : rest.head? ≠ some (.symbol .lparen)) : Reads parseForeignKey (key.tokens ++ rest) key rest := by
  obtain ⟨column, parent, parentColumn, onDelete, onUpdate⟩ := key
  have events := (events_each formed.1 formed.2 ends).reads
  have lookups := lookup_events onDelete onUpdate
  have reads : Reads parseForeignKey
      ((⟨column, parent, parentColumn, onDelete, onUpdate⟩ : ForeignKeyClause).tokens ++ rest)
      { column, parent, parentColumn
        onDelete := (onDelete.toList.map (word "DELETE", ·) ++ onUpdate.toList.map (word "UPDATE", ·)).lookup
          (word "DELETE")
        onUpdate := (onDelete.toList.map (word "DELETE", ·) ++ onUpdate.toList.map (word "UPDATE", ·)).lookup
          (word "UPDATE") } rest := by
    unfold ForeignKeyClause.tokens
    simp only [List.cons_append, List.append_assoc]
    refine .expect (.expect (.bind (parens_reads (name_reads column)) (.expect (.bind (name_reads parent) ?_))))
    cases parentColumn with
    | none =>
        have absent := @head_on _ "DELETE" onDelete _ (by simp [word]) (@head_on rest "UPDATE" onUpdate _ (by simp [word]) noParen)
        exact .peek (.ifFalse absent (.bind .pure (.map events)))
    | some name => exact .peek (.ifTrue rfl (.bind (parens_reads (name_reads name)) (.bind .pure (.map events))))
  rw [lookups.1, lookups.2] at reads
  exact reads

def Element.tokens : Element → List Token
  | .column clause => clause.tokens
  | .key clause => clause.tokens
  | .foreignKey clause => clause.tokens

def Element.Formed : Element → Prop
  | .column _ => True
  | .key clause => clause.columns ≠ []
  | .foreignKey clause => clause.Formed

theorem element_reads {element : Element} (formed : element.Formed) (ends : Ends rest) :
    Reads parseElement (element.tokens ++ rest) element rest := by
  cases element with
  | column clause =>
      have named : ∃ more, clause.tokens ++ rest = ident clause.name :: more := ⟨_, rfl⟩
      obtain ⟨more, tokens⟩ := named
      have other (text : String) : (clause.tokens ++ rest).head? ≠ some (word text) := by simp [tokens, ident, word]
      exact .peek (.ifFalse (other _) (.ifFalse (other _) (.ifFalse (other _) (.map (column_reads clause ends)))))
  | key clause =>
      cases clause with
      | primaryKey columns => exact .peek (.ifTrue rfl (.expect (.expect (.map (names_reads formed)))))
      | unique columns =>
          have other : (Element.tokens (.key (.unique columns)) ++ rest).head? ≠ some (word "PRIMARY") := by
            simpa [Element.tokens, KeyClause.tokens] using words_ne (by decide)
          exact .peek (.ifFalse other (.ifTrue rfl (.expect (.map (names_reads formed)))))
  | foreignKey clause =>
      have noParen : rest.head? ≠ some (.symbol .lparen) := by
        obtain ⟨token, more, rfl, rfl | rfl⟩ := ends <;> simp [comma]
      have first (text : String) (different : utf8 "FOREIGN" ≠ utf8 text) :
          (Element.tokens (.foreignKey clause) ++ rest).head? ≠ some (word text) := by
        simpa [Element.tokens, ForeignKeyClause.tokens] using words_ne different
      exact .peek (.ifFalse (first _ (by decide)) (.ifFalse (first _ (by decide)) (.ifTrue rfl
        (.map (foreignKey_reads formed ends noParen)))))

def CreateTable.elements (statement : CreateTable) : List Element :=
  statement.columns.map .column ++ (statement.keyClauses.map .key ++ statement.foreignKeys.map .foreignKey)

theorem CreateTable.elements_formed {statement : CreateTable} (formed : statement.Formed) :
    ∀ element ∈ statement.elements, element.Formed := by
  intro element member
  simp only [elements, List.mem_append, List.mem_map] at member
  rcases member with ⟨column, -, rfl⟩ | ⟨clause, isClause, rfl⟩ | ⟨key, isKey, rfl⟩
  · trivial
  · exact formed.keys clause isClause
  · exact formed.foreignKeys key isKey

/-- Each kind of part, picked out of the parts. -/
theorem CreateTable.of_elements (statement : CreateTable) :
    statement.elements.filterMap Element.column? = statement.columns ∧
      statement.elements.filterMap Element.key? = statement.keyClauses ∧
      statement.elements.filterMap Element.foreignKey? = statement.foreignKeys := by
  simp [elements, List.filterMap_append, List.filterMap_map, Function.comp_def, Element.column?, Element.key?,
    Element.foreignKey?]

theorem elements_tokens {statement : CreateTable} {column : ColumnClause} {columns : List ColumnClause}
    (first : statement.columns = column :: columns) : commas ColumnClause.tokens statement.columns ++
      ((statement.keyClauses.flatMap fun clause => comma :: clause.tokens) ++
        ((statement.foreignKeys.flatMap fun key => comma :: key.tokens) ++ rest)) =
      commas Element.tokens statement.elements ++ rest := by
  simp [CreateTable.elements, commas, first, Element.tokens, List.flatMap_map]

theorem ifNotExists_reads (ifNotExists : Bool) {text : String} :
    Reads (fun _ => parseIfNotExists) (ifNotExistsTokens ifNotExists ++ ident text :: rest) ifNotExists (ident text :: rest) := by
  cases ifNotExists with
  | true => exact .map (.optionally (.always rfl))
  | false => exact .map (.notThere (by simp [ifNotExistsTokens, ident, word]))

theorem createTable_reads {statement : CreateTable} (formed : statement.Formed) :
    Reads parseCreateTable (ifNotExistsTokens statement.ifNotExists ++ (ident statement.table ::
      .symbol .lparen :: (commas ColumnClause.tokens statement.columns ++
        ((statement.keyClauses.flatMap fun clause => comma :: clause.tokens) ++
          ((statement.foreignKeys.flatMap fun key => comma :: key.tokens) ++ [.symbol .rparen]))))) statement [] := by
  cases first : statement.columns with
  | nil => exact absurd first formed.some_
  | cons column columns =>
      have elements : statement.elements = .column column ::
          (columns.map .column ++ (statement.keyClauses.map .key ++ statement.foreignKeys.map .foreignKey)) := by
        rw [CreateTable.elements, first]
        rfl
      have inside : Reads (fun fuel => separated comma (parseElement fuel) fuel)
          (commas Element.tokens statement.elements ++ [.symbol .rparen]) statement.elements [.symbol .rparen] := by
        have each := @separated_reads _ _ _ [.symbol .rparen] _ comma parseElement Element.tokens id Ends (.column column)
          (columns.map .column ++ (statement.keyClauses.map .key ++ statement.foreignKeys.map .foreignKey))
          (fun element member rest ends => element_reads (CreateTable.elements_formed formed element (elements ▸ member)) ends)
          (fun rest => ⟨_, _, rfl, .inl rfl⟩) ⟨_, _, rfl, .inr rfl⟩ (no_comma [])
        rw [List.map_id] at each
        rw [elements, commas, List.append_assoc]
        exact each
      have reads : Reads parseCreateTable _ { statement with
          columns := statement.elements.filterMap Element.column?
          keyClauses := statement.elements.filterMap Element.key?
          foreignKeys := statement.elements.filterMap Element.foreignKey? } [] :=
        .bind (ifNotExists_reads statement.ifNotExists) (.bind (name_reads statement.table) (.map (parens_reads inside)))
      rw [statement.of_elements.1, statement.of_elements.2.1, statement.of_elements.2.2] at reads
      rw [← first, elements_tokens first]
      exact reads

theorem statement_reads {statement : Statement} (formed : statement.Formed) :
    Reads parseStatement statement.tokens statement [] := by
  cases statement with
  | createTable statement => exact .next (.next (.ifTrue ⟨rfl, rfl⟩ (.map (createTable_reads formed))))
  | createIndex statement =>
      have other : ¬ (word "CREATE" = word "CREATE" ∧ word "INDEX" = word "TABLE") := fun same =>
        words_ne (by decide) same.2
      have columns := @names_reads [] _ formed
      rw [List.append_nil] at columns
      exact .next (.next (.ifFalse other (.ifTrue ⟨rfl, rfl⟩ (.map (.bind (ifNotExists_reads true)
        (.bind (name_reads statement.name) (.expect (.bind (name_reads statement.table) (.map columns)))))))))
  | dropTable table =>
      have other (text : String) : ¬ (word "DROP" = word "CREATE" ∧ word "TABLE" = word text) := fun same =>
        words_ne (by decide) same.1
      exact .next (.next (.ifFalse (other _) (.ifFalse (other _) (.ifTrue ⟨rfl, rfl⟩
        (.expect (.expect (.map (name_reads table))))))))
  | renameTable table newName =>
      have other (text : String) : ¬ (word "ALTER" = word "CREATE" ∧ word "TABLE" = word text) := fun same =>
        words_ne (by decide) same.1
      have drop : ¬ (word "ALTER" = word "DROP" ∧ word "TABLE" = word "TABLE") := fun same => words_ne (by decide) same.1
      exact .next (.next (.ifFalse (other _) (.ifFalse (other _) (.ifFalse drop (.ifTrue ⟨rfl, rfl⟩
        (.bind (name_reads table) (.expect (.expect (.map (name_reads newName))))))))))

theorem ReadsAs.unique {text : String} {statement other : Statement} (reads : ReadsAs text statement)
    (readsOther : ReadsAs text other) : statement = other := by
  obtain ⟨tokens, lexed, least, reads⟩ := reads
  obtain ⟨same, lexedSame, most, readsOther⟩ := readsOther
  obtain rfl := Option.some.inj (lexed.symm.trans lexedSame)
  have one := reads (max least most) (Nat.le_max_left ..)
  have two := readsOther (max least most) (Nat.le_max_right ..)
  rw [one] at two
  cases two
  rfl

theorem statement_readsAs {statement : Statement} (formed : statement.Formed) : ReadsAs statement.sql statement :=
  ⟨statement.tokens, (Statement.spells formed).lex, statement_reads formed⟩

end Read

section Engines

variable {table : String} {columns : List ColumnDef} {keys : List Key} {foreignKeys : List ForeignKeyDef}
  {ifNotExists : Bool}

theorem action_formed {code : Int32} {words : Option String} (named : action code = .ok words) :
    ∀ text ∈ words, text ∈ actions := by
  unfold action at named
  repeat' split at named
  all_goals cases named
  all_goals simp [actions]

theorem foreignKey_formed {key : ForeignKeyDef} {clause : ForeignKeyClause} (made : foreignKey table key = .ok clause) :
    clause.Formed := by
  unfold foreignKey at made
  split at made
  · cases made
  · simp only [ExceptList.bind_ok, ExceptList.pure_ok] at made
    obtain ⟨onDelete, deletes, onUpdate, updates, rfl⟩ := made
    exact ⟨action_formed deletes, action_formed updates⟩

/-- One or more columns make one or more names. -/
theorem keyColumns_some {key : Key} {names : List String} (some_ : key.columns ≠ [])
    (named : keyColumns columns key = .ok names) : names ≠ [] := by
  rintro rfl
  exact some_ (List.length_eq_zero_iff.mp (ExceptList.mapM_length named).symm)

theorem createStatement_formed {statement : CreateTable} (some_ : columns ≠ [])
    (keysSome : ∀ key ∈ keys, key.kind = .unique → key.columns ≠ [])
    (created : createStatement table columns keys foreignKeys ifNotExists = .ok statement) : statement.Formed := by
  simp only [createStatement, ExceptList.bind_ok, ExceptList.pure_ok] at created
  obtain ⟨clauses, made, composite, isComposite, uniques, isUniques, others, isOthers, rfl⟩ := created
  refine ⟨?_, fun clause member => ?_, fun clause member => ?_⟩
  · rintro rfl
    exact some_ (by simpa using (ExceptList.mapM_length made).symm)
  · rcases List.mem_append.mp member with isPrimary | isUnique
    · obtain ⟨names, isNames, rfl⟩ := List.mem_map.mp isPrimary
      obtain ⟨key, isKey, named⟩ := ExceptList.mapM_mem isComposite isNames
      have long := (Option.filter_eq_some_iff.mp (Option.mem_toList.mp isKey)).2
      exact keyColumns_some (List.ne_nil_of_length_pos (Nat.lt_of_succ_lt (of_decide_eq_true long))) named
    · obtain ⟨names, isNames, rfl⟩ := List.mem_map.mp isUnique
      obtain ⟨key, isKey, named⟩ := ExceptList.mapM_mem isUniques isNames
      obtain ⟨inKeys, isKind⟩ := List.mem_filter.mp isKey
      exact keyColumns_some (keysSome key inKeys (of_decide_eq_true isKind)) named
  · obtain ⟨key, -, made⟩ := ExceptList.mapM_mem isOthers member
    exact foreignKey_formed made

/-- An engine that does with a text what it does with the statement it reads
there. -/
noncomputable def reading (exec : Statement → Except String Unit) (text : String) : Except String Unit :=
  open Classical in
  if there : ∃ statement, ReadsAs text statement then exec there.choose else .error "syntax error"

theorem reading_sql {exec : Statement → Except String Unit} {statement : Statement} (formed : statement.Formed) :
    reading exec statement.sql = exec statement := by
  have reads := statement_readsAs formed
  have there : ∃ other, ReadsAs statement.sql other := ⟨statement, reads⟩
  rw [reading, dif_pos there]
  exact congrArg exec (there.choose_spec.unique reads)

theorem createIndexes_reading (exec : Statement → Except String Unit) (indexKeys : List Key)
    (some_ : ∀ key ∈ indexKeys, key.columns ≠ []) :
    createIndexes (fun statement => reading exec statement.sql) table columns indexKeys =
      createIndexes (fun statement => exec (.createIndex statement)) table columns indexKeys := by
  induction indexKeys with
  | nil => rfl
  | cons key others ih =>
      obtain ⟨here, later⟩ := List.forall_mem_cons.mp some_
      rw [createIndexes, createIndexes, ih later]
      cases named : keyColumns columns key with
      | error why => rfl
      | ok names =>
          let index : CreateIndex := { name := s!"{table}__{key.name}", table, columns := names }
          have same : reading exec index.sql = exec (.createIndex index) :=
            @reading_sql exec (.createIndex index) (keyColumns_some here named)
          simp only [bind, Except.bind]
          rw [same]

/-- The texts of `ddl.rs` do what its statements say, whatever the names: with
an engine that reads its statements from the texts, a table and its indexes are
created, renamed and dropped as with one that is given the statements. -/
theorem texts_run_as_statements (exec : Statement → Except String Unit) (some_ : columns ≠ [])
    (keysSome : ∀ key ∈ keys, key.kind = .unique → key.columns ≠ []) :
    createTable (fun statement => reading exec statement.sql) (fun statement => reading exec statement.sql) table columns keys
        foreignKeys ifNotExists =
      createTable (fun statement => exec (.createTable statement)) (fun statement => exec (.createIndex statement)) table
        columns keys foreignKeys ifNotExists ∧
    (∀ name, reading exec (Statement.dropTable name).sql = exec (.dropTable name)) ∧
    ∀ name newName, reading exec (Statement.renameTable name newName).sql = exec (.renameTable name newName) := by
  refine ⟨?_, fun name => reading_sql trivial, fun name newName => reading_sql trivial⟩
  rw [createTable, createTable]
  cases created : createStatement table columns keys foreignKeys ifNotExists with
  | error why => rfl
  | ok statement =>
      have same := @reading_sql exec (.createTable statement) (createStatement_formed some_ keysSome created)
      have indexes := @createIndexes_reading table columns exec (keys.filter fun key => key.kind = .index && !key.columns.isEmpty)
        (fun key member => by simpa using (Bool.and_eq_true_iff.mp (List.mem_filter.mp member).2).2)
      change (do
        reading exec (Statement.sql (.createTable statement))
        createIndexes _ table columns _ : Except String (List String)) = _
      rw [same, indexes]
      rfl

theorem texts_run_as_statements_sample :
    createTable
      (fun statement => reading (fun | .createIndex _ => .error "no room" | _ => .ok ()) statement.sql)
      (fun statement => reading (fun | .createIndex _ => .error "no room" | _ => .ok ()) statement.sql)
      "d_1\"t" [⟨"a\"b", 1, false, true⟩, ⟨"c", 3, true, false⟩]
      [⟨"PRIMARY", [0], .primary⟩, ⟨"u", [1], .unique⟩, ⟨"k", [1, 0], .index⟩] [⟨"c", "d_1p", some "id", 3, 0⟩] false =
      .ok ["k: no room"] :=
  (texts_run_as_statements _ (List.cons_ne_nil _ _) (by decide)).1.trans rfl

end Engines

end StoolapMariadb.Ddl
