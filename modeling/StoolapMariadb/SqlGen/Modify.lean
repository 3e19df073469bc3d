import StoolapMariadb.SqlGen.Select

namespace StoolapMariadb.SqlGen

/-! Single-table UPDATE and DELETE. -/

open StoolapMariadb.Types (RealType)

/-- What the generator asks of the session and the server around an UPDATE or
DELETE. -/
structure ModifyContext where
  update : Bool
  strict : Bool
  foundRows : Bool
  zeroForNegativeZero : Bool

/-- The SELECT_LEX of the statement with its SET lists, and its table's share:
whether it has CHECK constraints or ON UPDATE defaults, and the fields of its
primary key. -/
structure ModifySelect where
  tables : List TableList
  targets : List Item
  values : List Item
  checkConstraints : Bool
  updateDefaults : Bool
  primaryKey : Option (List Nat)

inductive Statement where
  | update (table : String) (sets : List (String × Sql)) (filter : Option Sql)
  | delete (table : String) (filter : Option Sql)

/-- The statement that counts the rows an UPDATE finds. -/
structure ModifyCount where
  table : String
  filter : Option Sql
  oneRow : Bool

def quoteIdent (name : String) : String :=
  "\"" ++ String.ofList (name.toList.flatMap fun c => if c = '"' then ['"', '"'] else [c]) ++ "\""

/-- An integer column's range, none for BIGINT. -/
def intRange (f : Field) : Option (Int64 × Int64) :=
  let range (least most unsignedMost : Int64) := if f.isUnsigned then (0, unsignedMost) else (least, most)
  match f.realType with
  | .tiny => some (range (-128) 127 255)
  | .short => some (range (-32768) 32767 65535)
  | .int24 => some (range (-8388608) 8388607 16777215)
  | .long => some (range (-2147483648) 2147483647 4294967295)
  | _ => none

/-- `9223372036854775807 + 4242`, which fails the statement. -/
def guardOverflow : Sql := .arithmetic .add (.integer 9223372036854775807) (.integer 4242)

/-- The CASE around a value that may be out of its column's range. -/
def rangeCheck (value : Sql) (least most : Int64) : Sql :=
  .caseSearched (.when
    (.connect .or [.compare .lt value (.integer least), .compare .gt value (.integer most)])
    guardOverflow (.otherwise value))

/-- What is left of a value past `length` characters without white space. -/
def lengthRest (value : Sql) (length : Nat) : Sql :=
  [0x20, 0x09, 0x0A, 0x0B, 0x0C, 0x0D].foldl
    (fun rest space => .call .replace [rest, .text [space], .text []])
    (.call .substr [value, .arithmetic .add (.integer (Int64.ofNat length)) (.integer 1)])

/-- The CASE around a value that may be too long; `tooLong` is what it is
then. -/
def lengthCheck (value : Sql) (length : Nat) (tooLong : Sql) : Sql :=
  .caseSearched (.when
    (.connect .or [.isNull false value, .compare .le (.call .charLength [value]) (.integer (Int64.ofNat length))])
    value
    (.when (.compare .eq (lengthRest value length) (.text []))
      (.call .substr [value, .integer 1, .integer (Int64.ofNat length)]) (.otherwise tooLong)))

/-- The characters of a UTF-8 text. -/
def numchars (bytes : List UInt8) : Nat := (bytes.filter fun byte => byte &&& 0xC0 ≠ 0x80).length

def NOT_FIXED_DEC : Nat := 39

/-- What a value needs to be stored as MariaDB stores it. -/
inductive Check where
  | none
  | plusZero
  | range (least most : Int64)
  | length (most : Nat)

def intCheck (fl : Field) (v : Item) : GenM Check :=
  if fl.realType = .year then fail "YEAR target"
  else
    match intRange fl, v with
    | none, _ => return .none
    | some (least, most), .const _ (.int n) =>
        if n < least || n > most then fail "value out of range" else return .none
    | some (least, most), _ => return .range least most

def realCheck (context : ModifyContext) (fl : Field) : GenM Check :=
  if fl.realType ≠ .double || fl.decimals < NOT_FIXED_DEC then fail "rounding float target"
  else if !context.zeroForNegativeZero then fail "DOUBLE target on a server keeping -0.0"
  else return .plusZero

def RealType.isVarchar : RealType → Bool
  | .varchar | .varString => true
  | _ => false

def RealType.isText : RealType → Bool
  | .tinyBlob | .blob | .mediumBlob | .longBlob => true
  | _ => false

def strCheck (fl : Field) (v : Item) : GenM Check :=
  let varchar := RealType.isVarchar fl.realType
  if !fl.charset.any fun cs => cs.mbmaxlen = 4 then fail "string target"
  else if !varchar && !RealType.isText fl.realType then fail "string target"
  else
    match v with
    | .const _ (.string bytes _ _) =>
        if (if varchar then numchars bytes > fl.charLength else bytes.length > fl.fieldLength) then
          fail "value too long"
        else return .none
    | .const _ _ => fail "string value"
    | v =>
        if !varchar then fail "text target"
        else if v.attrs.maxLength > 1048576 then fail "value may be large"
        else return .length fl.charLength

/-- A date or time column takes a column of its own type only. -/
def temporalCheck (fl : Field) (v : Item) : GenM Check :=
  match v.realItem with
  | .field _ (some src) =>
      if src.realType ≠ fl.realType || src.decimals ≠ fl.decimals then fail "temporal value" else return .none
  | _ => fail "temporal value"

def valueCheck (context : ModifyContext) (fl : Field) (v : Item) : Cls → GenM Check
  | .int => intCheck fl v
  | .real => realCheck context fl
  | .str => strCheck fl v
  | _ => temporalCheck fl v

/-- Sets the checked value, of which a statement has at most one. -/
def guarded (context : ModifyContext) (fl : Field) (error : GuardError) : GenM Unit := do
  if !context.strict then fail "value may not fit, outside strict mode"
  else if (← get).guard.isSome then fail "two checked SET values"
  else modify fun g => { g with guard := some ⟨fl.name, error⟩ }

/-- The value written for column `fl`, and the one it will hold. -/
def assignment (context : ModifyContext) (target : Item) (fl : Field) (v : Item) : GenM (Sql × Sql) := do
  match v with
  | .param _ => fail "parameter without a value"
  | .null _ => if fl.notNull then fail "NULL into NOT NULL" else return (.null, .null)
  | v =>
      if fl.notNull && v.attrs.maybeNull then fail "nullable value into NOT NULL"
      else if cls target = .unsafe_ || (cls target ≠ cls v && !(cls target = .real && cls v = .int)) then
        fail "SET converts its value"
      else
        match ← valueCheck context fl v (cls target) with
        | .none =>
            let value ← Child.expr ⟨v, node v, query v⟩
            return (value, .paren value)
        | .plusZero =>
            let value ← Child.expr ⟨v, node v, query v⟩
            let zeroed := Sql.arithmetic .add value (.number "0.0")
            return (zeroed, .paren zeroed)
        | .range least most =>
            guarded context fl .outOfRange
            let value := Sql.paren (← Child.expr ⟨v, node v, query v⟩)
            return (rangeCheck value least most, value)
        | .length most =>
            guarded context fl .tooLong
            let value := Sql.paren (← Child.expr ⟨v, node v, query v⟩)
            return (lengthCheck value most guardOverflow, lengthCheck value most value)

/-- The SET list: its assignments, and for each the test that it changes its
column. -/
def setList (context : ModifyContext) (table : TableId) (name : String) :
    List Item → List Item → GenM (List (String × Sql) × List Sql)
  | [], _ => return ([], [])
  | _ :: _, [] => fail "SET without a value"
  | target :: targets, v :: values => do
      match target with
      | .field _ (some fl) =>
          if fl.table ≠ table then fail "SET target"
          else
            let (value, stored) ← assignment context target fl v
            modify fun g => { g with assigned := fl :: g.assigned }
            let (sets, changes) ← setList context table name targets values
            return ((fl.name, value) :: sets,
              .compare .isDistinctFrom (.column name fl.name) stored :: changes)
      | _ => fail "SET target"

mutual

/-- The condition takes at most one row: an equality of the single-column
primary key with a constant, alone or in an AND. -/
def pkEquality (table : TableId) (column : Nat) : Item → Bool
  | .cond _ .and args => pkEqualities table column args
  | .func _ _ (.compare .eq _ _) [a, b] =>
      let equates (a b : Item) : Bool :=
        match a.realItem with
        | .field _ (some fl) => fl.table = table && fl.fieldIndex = column && b.constItem
        | _ => false
      equates a b || equates b a
  | _ => false

def pkEqualities (table : TableId) (column : Nat) : List Item → Bool
  | [] => false
  | it :: items => pkEquality table column it || pkEqualities table column items

end

/-- The WHERE of an UPDATE that writes only the rows it changes: the condition
first, made FALSE where it may be NULL, then the changes. -/
def changedFilter (cond : Option (Item × Sql)) (changes : List Sql) : Sql :=
  match cond with
  | none => .paren (.connect .or changes)
  | some (filter, cond) =>
      .connect .and ([.paren cond] ++
        (if filter.attrs.maybeNull then [.paren (.isNull true (.paren cond))] else []) ++
        [.paren (.connect .or changes)])

/-- The statement, and how to count the rows it finds. -/
def modifyStatement (context : ModifyContext) (sel : ModifySelect) (filter : Option Item) :
    GenM (Statement × Option ModifyCount) := do
  match sel.tables with
  | [.mk (.base id tableName) _ _ _] =>
      let name := quoteIdent tableName
      modify fun g => { g with aliases := (id, name) :: g.aliases }
      let condition : GenM (Option (Item × Sql)) :=
        match filter with
        | none => return none
        | some it => return some (it, ← Child.condition ⟨it, node it, query it⟩)
      if context.update then
        if sel.checkConstraints then fail "CHECK constraint"
        else if sel.updateDefaults then fail "ON UPDATE default"
        else
          let (sets, changes) ← setList context id name sel.targets sel.values
          modify fun g => { g with assigned := [] }
          let cond ← condition
          if context.foundRows || changes.isEmpty then
            return (.update name sets (cond.map Prod.snd), none)
          else
            let oneRow :=
              match filter, sel.primaryKey with
              | some filter, some [column] => pkEquality id column filter
              | _, _ => false
            return (.update name sets (some (changedFilter cond changes)),
              some ⟨name, cond.map Prod.snd, oneRow⟩)
      else
        let cond ← condition
        return (.delete name (cond.map Prod.snd), none)
  | _ => fail "modified table"

def newGen (trustBin : Bool) : Gen where
  trustBin
  aliases := []
  viewCols := []
  nextAlias := 0
  assigned := []
  existsList := false
  guard := none

/-- `gen_modify`. -/
def genModify (trustBin : Bool) (context : ModifyContext) (sel : ModifySelect) (filter : Option Item) :
    Except String (Statement × Option ModifyCount × Option ModifyGuard) := do
  let ((statement, count), g) ← (modifyStatement context sel filter).run (newGen trustBin)
  return (statement, count, g.guard)

/-- `gen_select`, of a SELECT that is no leg of a set operation. -/
def genSelect (trustBin : Bool) (select : Select) : Except String Query :=
  ((Select.write true none none select).run (newGen trustBin)).map Prod.fst

/-- `gen_unit`. -/
def genUnit (trustBin : Bool) (unit : SelectUnit) : Except String Query :=
  ((SelectUnit.write none unit).run (newGen trustBin)).map Prod.fst

end StoolapMariadb.SqlGen
