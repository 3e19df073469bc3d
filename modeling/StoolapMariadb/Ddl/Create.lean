import StoolapMariadb.Value
import StoolapMariadb.Lib.ExceptList

namespace StoolapMariadb.Ddl

/-! CREATE TABLE from MariaDB's definition, and the way back from the name of
a unique index to MariaDB's key. -/

/-- A column as the plugin describes it, its kind as `STOOLAP_COL_*`. -/
structure ColumnDef where
  name : String
  kind : Int32
  nullable : Bool
  autoIncrement : Bool

inductive KeyKind where
  | primary
  | unique
  | index
deriving DecidableEq

structure Key where
  name : String
  columns : List Nat
  kind : KeyKind

/-- A foreign key as MariaDB's parser read it, its actions as
`STOOLAP_FK_*`. -/
structure ForeignKeyDef where
  column : String
  parent : String
  parentColumn : Option String
  onDelete : Int32
  onUpdate : Int32

/-- A column of the statement. -/
structure ColumnClause where
  name : String
  dataType : DataType
  notNull : Bool
  primaryKey : Bool
  autoIncrement : Bool

inductive KeyClause where
  | primaryKey (columns : List String)
  | unique (columns : List String)

/-- A FOREIGN KEY clause; an action it does not name is `none`. -/
structure ForeignKeyClause where
  column : String
  parent : String
  parentColumn : Option String
  onDelete : Option String
  onUpdate : Option String

/-- The statement `create_table` writes. -/
structure CreateTable where
  ifNotExists : Bool
  table : String
  columns : List ColumnClause
  keyClauses : List KeyClause
  foreignKeys : List ForeignKeyClause

structure CreateIndex where
  name : String
  table : String
  columns : List String

def columnName (columns : List ColumnDef) (index : Nat) : Except String String :=
  match columns[index]? with
  | some column => .ok column.name
  | none => .error "key column out of range"

def keyColumns (columns : List ColumnDef) (key : Key) : Except String (List String) :=
  key.columns.mapM (columnName columns)

def dataTypeOf (kind : Int32) : Except String DataType :=
  if kind = 1 then .ok .integer
  else if kind = 2 then .ok .float
  else if kind = 3 then .ok .text
  else .error "unknown column type"

def action (code : Int32) : Except String (Option String) :=
  if code = 0 then .ok none
  else if code = 1 then .ok (some "RESTRICT")
  else if code = 2 then .ok (some "NO ACTION")
  else if code = 3 then .ok (some "CASCADE")
  else if code = 4 then .ok (some "SET NULL")
  else if code = 5 then .ok (some "SET DEFAULT")
  else .error "unknown FOREIGN KEY action"

def foreignKey (table : String) (key : ForeignKeyDef) : Except String ForeignKeyClause := do
  if key.parent = table then
    throw s!"self-referencing FOREIGN KEY on '{key.column}': stoolap resolves the parent at CREATE-time, before the table is registered."
  let onDelete ← action key.onDelete
  let onUpdate ← action key.onUpdate
  return { column := key.column, parent := key.parent, parentColumn := key.parentColumn, onDelete, onUpdate }

def columnClause (inlinePk : Option Nat) (column : ColumnDef × Nat) : Except String ColumnClause := do
  let dataType ← dataTypeOf column.1.kind
  return {
    name := column.1.name
    dataType
    notNull := !column.1.nullable
    primaryKey := inlinePk = some column.2
    autoIncrement := column.1.autoIncrement }

/-- A single-column PRIMARY KEY goes with its column; a composite one is the
first of the table's clauses, which stoolap numbers in order. -/
def createStatement (table : String) (columns : List ColumnDef) (keys : List Key)
    (foreignKeys : List ForeignKeyDef) (ifNotExists : Bool) : Except String CreateTable := do
  let primary := keys.find? fun key => key.kind = .primary
  let inlinePk := (primary.filter fun key => key.columns.length = 1).bind fun key => key.columns[0]?
  let columnClauses ← columns.zipIdx.mapM (columnClause inlinePk)
  let composite ← (primary.filter fun key => key.columns.length > 1).toList.mapM (keyColumns columns)
  let uniques ← (keys.filter fun key => key.kind = .unique).mapM (keyColumns columns)
  let foreignKeys ← foreignKeys.mapM (foreignKey table)
  return {
    ifNotExists
    table
    columns := columnClauses
    keyClauses := composite.map .primaryKey ++ uniques.map .unique
    foreignKeys }

/-- The secondary indexes, one statement each; those that fail come back by
name with the error. -/
def createIndexes (run : CreateIndex → Except String Unit) (table : String) (columns : List ColumnDef) :
    List Key → Except String (List String)
  | [] => .ok []
  | key :: keys => do
      let names ← keyColumns columns key
      let failed :=
        match run { name := s!"{table}__{key.name}", table, columns := names } with
        | .ok () => []
        | .error error => [s!"{key.name}: {error}"]
      return failed ++ (← createIndexes run table columns keys)

/-- `ddl::create_table`, the engine running its statements. -/
def createTable (runTable : CreateTable → Except String Unit) (runIndex : CreateIndex → Except String Unit)
    (table : String) (columns : List ColumnDef) (keys : List Key) (foreignKeys : List ForeignKeyDef)
    (ifNotExists : Bool) : Except String (List String) := do
  runTable (← createStatement table columns keys foreignKeys ifNotExists)
  createIndexes runIndex table columns
    (keys.filter fun key => key.kind = .index && !key.columns.isEmpty)

/-- A key of MariaDB's: the fields of its parts, and whether it has
`HA_NOSAME`. -/
structure KeyInfo where
  name : String
  parts : List Nat
  noSame : Bool

/-- `TABLE_SHARE`. `primaryKey` is past the keys when there is none. -/
structure TableShare where
  keyInfo : List KeyInfo
  primaryKey : Nat

/-- The keys as `create_stoolap_table` hands them over. -/
def TableShare.keyDef (share : TableShare) (key : KeyInfo × Nat) : Key where
  name := key.1.name
  columns := key.1.parts
  kind := if key.2 = share.primaryKey then .primary else if key.1.noSame then .unique else .index

def TableShare.keyDefs (share : TableShare) : List Key := share.keyInfo.zipIdx.map share.keyDef

/-- The name stoolap gives the index of a table's n-th PRIMARY KEY or UNIQUE
clause. -/
def uniqueIndexName (table : String) (n : Nat) : String := s!"unique_{table}_{n}"

/-- `str::rsplit_once`. -/
def rsplitOnce (separator : Char) : List Char → Option (List Char × List Char)
  | [] => none
  | char :: rest =>
      match rsplitOnce separator rest with
      | some (before, after) => some (char :: before, after)
      | none => if char = separator then some ([], rest) else none

def parseDigits (value : Nat) : List Char → Option Nat
  | [] => some value
  | char :: rest =>
      if char.isDigit && 10 * value + (char.toNat - '0'.toNat) < 65536 then
        parseDigits (10 * value + (char.toNat - '0'.toNat)) rest
      else none

/-- `str::parse::<u16>`. -/
def parseU16 : List Char → Option Nat
  | [] => none
  | '+' :: digits => if digits.isEmpty then none else parseDigits 0 digits
  | digits => parseDigits 0 digits

/-- `STOOLAP_KEY_NONE`. -/
def keyNone : Int := -1

/-- The n of stoolap's "unique_<table>_<n>" index. -/
def uniqueOrdinal (index : String) : Int :=
  match rsplitOnce '_' index.toList with
  | none => keyNone
  | some (_, n) =>
      if "unique_".toList.isPrefixOf index.toList then
        match parseU16 n with
        | some n => n
        | none => keyNone
      else keyNone

/-- The loop of `unique_key_by_ordinal`, from one of the keys on. -/
def nthUnique (primaryKey : Nat) : List (KeyInfo × Nat) → Nat → Option Nat
  | [], _ => none
  | (key, i) :: keys, n =>
      if i = primaryKey then nthUnique primaryKey keys n
      else if !key.noSame then nthUnique primaryKey keys n
      else if n = 0 then some i
      else nthUnique primaryKey keys (n - 1)

def TableShare.compositePk (share : TableShare) : Bool :=
  match share.keyInfo[share.primaryKey]? with
  | some key => key.parts.length > 1
  | none => false

/-- MariaDB's key behind stoolap's n-th unique constraint; `none` is
`MAX_KEY`. -/
def uniqueKeyByOrdinal (share : TableShare) (n : Nat) : Option Nat :=
  if share.compositePk then
    if n = 0 then some share.primaryKey else nthUnique share.primaryKey share.keyInfo.zipIdx (n - 1)
  else nthUnique share.primaryKey share.keyInfo.zipIdx n

/-- `errkey_from_view`, from the key of the error's class. -/
def errkey (share : TableShare) (key : Int) : Nat :=
  let named := if key ≥ 0 then uniqueKeyByOrdinal share key.toNat else none
  match named with
  | some key => key
  | none => if share.primaryKey < share.keyInfo.length then share.primaryKey else 0

/-- The keys that become clauses of the table, by their positions, in the
order of the clauses. -/
def TableShare.clauseKeys (share : TableShare) : List Nat :=
  (if share.compositePk then [share.primaryKey] else []) ++
    (share.keyInfo.zipIdx.filter fun key => key.2 ≠ share.primaryKey && key.1.noSame).map Prod.snd

/-- The clause is the one of the key at position `i`. -/
def TableShare.WrittenFrom (share : TableShare) (columns : List ColumnDef) (clause : KeyClause) (i : Nat) :
    Prop :=
  ∃ key names, share.keyInfo[i]? = some key ∧ key.parts.mapM (columnName columns) = .ok names ∧
    clause = if i = share.primaryKey then .primaryKey names else .unique names

variable {share : TableShare} {table : String} {columns : List ColumnDef}

theorem nthUnique_eq (primaryKey : Nat) (keys : List (KeyInfo × Nat)) (n : Nat) :
    nthUnique primaryKey keys n =
      ((keys.filter fun key => key.2 ≠ primaryKey && key.1.noSame).map Prod.snd)[n]? := by
  induction keys generalizing n with
  | nil => rfl
  | cons key keys ih =>
      obtain ⟨key, i⟩ := key
      by_cases primary : i = primaryKey
      · simp [nthUnique, primary, ih]
      · cases same : key.noSame with
        | false => simp [nthUnique, primary, same, ih]
        | true =>
            cases n with
            | zero => simp [nthUnique, primary, same]
            | succ n => simp [nthUnique, primary, same, ih]

/-- The plugin counts the clauses as `create_table` wrote them. -/
theorem uniqueKeyByOrdinal_eq (share : TableShare) (n : Nat) :
    uniqueKeyByOrdinal share n = share.clauseKeys[n]? := by
  simp only [uniqueKeyByOrdinal, TableShare.clauseKeys, nthUnique_eq]
  cases share.compositePk with
  | false => simp
  | true =>
      cases n with
      | zero => simp
      | succ n => simp

theorem rsplitOnce_append {separator : Char} {last : List Char} (absent : separator ∉ last)
    (first : List Char) :
    rsplitOnce separator (first ++ separator :: last) = some (first, last) := by
  have none_of_absent : rsplitOnce separator last = none := by
    induction last with
    | nil => rfl
    | cons char rest ih =>
        rw [List.mem_cons, not_or] at absent
        rw [rsplitOnce, ih absent.2]
        exact if_neg fun same => absent.1 same.symm
  induction first with
  | nil => rw [List.nil_append, rsplitOnce, none_of_absent]; exact if_pos rfl
  | cons char first ih => rw [List.cons_append, rsplitOnce, ih]

theorem le_ofDigitChars (digits : List Char) (value : Nat) :
    value ≤ Nat.ofDigitChars 10 digits value := by
  induction digits generalizing value with
  | nil => rw [Nat.ofDigitChars_nil]
  | cons char rest ih =>
      rw [Nat.ofDigitChars_cons]
      exact Nat.le_trans (by omega) (ih _)

theorem parseDigits_eq {digits : List Char} {value : Nat} (all : ∀ char ∈ digits, char.isDigit = true)
    (fits : Nat.ofDigitChars 10 digits value < 65536) :
    parseDigits value digits = some (Nat.ofDigitChars 10 digits value) := by
  induction digits generalizing value with
  | nil => rw [parseDigits, Nat.ofDigitChars_nil]
  | cons char rest ih =>
      rw [Nat.ofDigitChars_cons] at fits ⊢
      have first := all char List.mem_cons_self
      have room := Nat.lt_of_le_of_lt (le_ofDigitChars rest _) fits
      rw [parseDigits, if_pos (by rw [first, Bool.true_and, decide_eq_true_eq]; exact room)]
      exact ih (fun other member => all other (List.mem_cons_of_mem _ member)) fits

theorem parseU16_toDigits {n : Nat} (few : n < 65536) : parseU16 (Nat.toDigits 10 n) = some n := by
  have all : ∀ char ∈ Nat.toDigits 10 n, char.isDigit = true := fun char member =>
    Nat.isDigit_of_mem_toDigits (by decide) (by decide) member
  have parsed := parseDigits_eq all (by rw [Nat.ofDigitChars_ten_toDigits]; exact few)
  rw [Nat.ofDigitChars_ten_toDigits] at parsed
  have some' : Nat.toDigits 10 n ≠ [] := Nat.toDigits_ne_nil
  generalize Nat.toDigits 10 n = text at all parsed some'
  simp only [parseU16]
  split
  · exact absurd rfl some'
  · exact absurd (all '+' List.mem_cons_self) (by decide)
  · exact parsed

/-- The number stoolap ends an index's name with is read back, whatever the
table's name. -/
theorem uniqueOrdinal_uniqueIndexName (table : String) {n : Nat} (few : n < 65536) :
    uniqueOrdinal (uniqueIndexName table n) = n := by
  have spelled : (uniqueIndexName table n).toList =
      ("unique_".toList ++ table.toList) ++ '_' :: Nat.toDigits 10 n := by
    simp only [uniqueIndexName, String.toList_append, List.append_assoc, toString, Nat.toList_repr]
    rfl
  have split := rsplitOnce_append (n.underscore_not_in_toDigits) ("unique_".toList ++ table.toList)
  rw [← spelled] at split
  have prefixed : "unique_".toList.isPrefixOf (uniqueIndexName table n).toList = true := by
    rw [spelled, List.isPrefixOf_iff_prefix, List.append_assoc]
    exact List.prefix_append _ _
  simp only [uniqueOrdinal, split, prefixed, if_true, parseU16_toDigits few]

theorem find?_zipIdx {α : Type} (items : List α) (start n : Nat) :
    ((items.zipIdx start).find? fun item => item.2 = start + n) = (items[n]?).map (·, start + n) := by
  induction items generalizing start n with
  | nil => simp
  | cons item items ih =>
      rw [List.zipIdx_cons]
      cases n with
      | zero => simp
      | succ n =>
          have next := ih (start + 1) n
          rw [show start + 1 + n = start + (n + 1) by omega] at next
          rw [List.find?_cons_of_neg (by simp), next, List.getElem?_cons_succ]

theorem keyDef_primary {key : KeyInfo × Nat} :
    (share.keyDef key).kind = .primary ↔ key.2 = share.primaryKey := by
  simp only [TableShare.keyDef]
  split
  · rename_i primary
    simp only [primary]
  · rename_i other
    split <;> simp only [reduceCtorEq, other]

theorem keyDef_unique {key : KeyInfo × Nat} :
    (share.keyDef key).kind = .unique ↔ key.2 ≠ share.primaryKey ∧ key.1.noSame = true := by
  simp only [TableShare.keyDef]
  split
  · rename_i primary
    simp only [reduceCtorEq, ne_eq, primary, not_true_eq_false, false_and]
  · rename_i other
    split <;> rename_i same <;> simp only [reduceCtorEq, ne_eq, other, not_false_eq_true, true_and, same]

theorem find?_primary (share : TableShare) :
    share.keyDefs.find? (fun key => key.kind = .primary) =
      (share.keyInfo[share.primaryKey]?).map fun key => share.keyDef (key, share.primaryKey) := by
  have kinds : ((fun key : Key => decide (key.kind = .primary)) ∘ share.keyDef) =
      fun key : KeyInfo × Nat => decide (key.2 = 0 + share.primaryKey) := by
    funext key
    simp only [Function.comp_apply, keyDef_primary, Nat.zero_add]
  rw [TableShare.keyDefs, List.find?_map, kinds, find?_zipIdx, Nat.zero_add, Option.map_map]
  rfl

theorem filter_unique (share : TableShare) :
    share.keyDefs.filter (fun key => key.kind = .unique) =
      (share.keyInfo.zipIdx.filter fun key => key.2 ≠ share.primaryKey && key.1.noSame).map share.keyDef := by
  rw [TableShare.keyDefs, List.filter_map]
  congr 1
  apply List.filter_congr
  intro key _
  simp only [Function.comp_apply, keyDef_unique, Bool.decide_and, Bool.decide_eq_true]

/-- The clauses are those of `clauseKeys`, in its order. -/
theorem createStatement_keyClauses {foreignKeys : List ForeignKeyDef} {ifNotExists : Bool}
    {statement : CreateTable}
    (created : createStatement table columns share.keyDefs foreignKeys ifNotExists = .ok statement) :
    List.Forall₂ (share.WrittenFrom columns) statement.keyClauses share.clauseKeys := by
  simp only [createStatement, ExceptList.bind_ok, ExceptList.pure_ok] at created
  obtain ⟨_, _, composite, compositeRan, uniques, uniquesRan, _, _, rfl⟩ := created
  rw [find?_primary, ExceptList.mapM_ok] at compositeRan
  rw [filter_unique, ExceptList.mapM_ok, List.forall₂_map_left_iff] at uniquesRan
  apply List.rel_append
  · rw [TableShare.compositePk]
    cases found : share.keyInfo[share.primaryKey]? with
    | none =>
        rw [found] at compositeRan
        cases compositeRan
        exact .nil
    | some key =>
        rw [found] at compositeRan
        by_cases wide : key.parts.length > 1
        · simp only [Option.map_some, Option.filter, TableShare.keyDef, wide, decide_true, if_true,
            Option.toList_some, List.forall₂_cons_left_iff, List.forall₂_nil_left_iff] at compositeRan
          obtain ⟨names, _, spelled, rfl, rfl⟩ := compositeRan
          simp only [wide, decide_true, if_true]
          exact .cons ⟨key, names, found, spelled, by rw [if_pos rfl]⟩ .nil
        · simp only [Option.map_some, Option.filter, TableShare.keyDef, wide, decide_false,
            Bool.false_eq_true, if_false, Option.toList_none, List.forall₂_nil_left_iff] at compositeRan
          simp only [compositeRan, wide, decide_false, Bool.false_eq_true, if_false]
          exact .nil
  · rw [List.forall₂_map_left_iff, List.forall₂_map_right_iff]
    have sources : ∀ key ∈ share.keyInfo.zipIdx.filter fun key => key.2 ≠ share.primaryKey && key.1.noSame,
        share.keyInfo[key.2]? = some key.1 ∧ key.2 ≠ share.primaryKey := by
      intro key member
      obtain ⟨listed, chosen⟩ := List.mem_filter.mp member
      rw [Bool.and_eq_true, decide_eq_true_eq] at chosen
      exact ⟨List.mem_zipIdx_iff_getElem?.mp listed, chosen.1⟩
    apply List.Forall₂.flip
    refine ((List.forall₂_and_left _ _).mpr ⟨sources, uniquesRan⟩).imp ?_
    rintro key names ⟨⟨found, other⟩, spelled⟩
    exact ⟨key.1, names, found, spelled, by rw [if_neg other]⟩

/-- A duplicate names the key it is of: `create_table` numbers the clauses as
the plugin counts them back, and the number is read whatever the table's
name. -/
theorem duplicate_names_its_key (foreignKeys : List ForeignKeyDef) (ifNotExists : Bool)
    {statement : CreateTable}
    (created : createStatement table columns share.keyDefs foreignKeys ifNotExists = .ok statement) :
    List.Forall₂ (share.WrittenFrom columns) statement.keyClauses share.clauseKeys ∧
      ∀ n i, share.clauseKeys[n]? = some i → n < 65536 →
        uniqueKeyByOrdinal share (uniqueOrdinal (uniqueIndexName table n)).toNat = some i ∧
          errkey share (uniqueOrdinal (uniqueIndexName table n)) = i := by
  refine ⟨createStatement_keyClauses created, ?_⟩
  intro n i clause few
  have mapped := (uniqueKeyByOrdinal_eq share n).trans clause
  rw [uniqueOrdinal_uniqueIndexName table few, Int.toNat_natCast]
  refine ⟨mapped, ?_⟩
  simp only [errkey, ge_iff_le, Int.natCast_nonneg, if_true, Int.toNat_natCast, mapped]

/-- A composite PRIMARY KEY that is not the first key, two UNIQUE keys and a
plain one, in a table named like an index. -/
def sampleShare : TableShare where
  keyInfo :=
    [{ name := "u", parts := [2], noSame := true }, { name := "k", parts := [1], noSame := false },
     { name := "PRIMARY", parts := [0, 1], noSame := true }, { name := "v", parts := [1, 2], noSame := true }]
  primaryKey := 2

theorem duplicate_names_its_key_sample :
    ∃ statement, createStatement "d_1unique_07" [⟨"a", 1, false, false⟩, ⟨"b", 1, false, false⟩, ⟨"c", 3, true, false⟩]
        sampleShare.keyDefs [] false = .ok statement ∧
      List.Forall₂ (sampleShare.WrittenFrom [⟨"a", 1, false, false⟩, ⟨"b", 1, false, false⟩, ⟨"c", 3, true, false⟩])
        statement.keyClauses sampleShare.clauseKeys ∧
      ∀ n i, sampleShare.clauseKeys[n]? = some i → n < 65536 →
        uniqueKeyByOrdinal sampleShare (uniqueOrdinal (uniqueIndexName "d_1unique_07" n)).toNat = some i ∧
          errkey sampleShare (uniqueOrdinal (uniqueIndexName "d_1unique_07" n)) = i :=
  ⟨_, rfl, duplicate_names_its_key [] false rfl⟩

end StoolapMariadb.Ddl
