import StoolapMariadb.KeyRead

namespace StoolapMariadb.KeyRead

open StoolapMariadb.Types Index Record Read Key Sorting

/-! What a read by key delivers: the rows its conditions take, those of them
the filter keeps. -/

variable [Stoolap]

/-- Stoolap's table of `rows`: besides what it shows, a scan with a filter
gives the rows it takes, a row is found by its id, and an INTEGER primary key
holds the id. -/
structure Serves (table : TableView) (rows : List IdRow) : Prop extends Shows table rows where
  filtered : ∀ filter, ∃ found, table.scan (some filter) = .ok found ∧
    found.Perm (rows.filter fun row => filter.eval row.2 = some true)
  byId : ∀ id, ∃ found, table.fetchRowsByIds [id] = .ok found ∧ found.Perm (rows.filter fun row => row.1 = id)
  rowId : ∀ column, table.schema.pkColumn = some column → ∀ row ∈ rows, row.2.value column = some (.integer row.1)

theorem TableView.ofRows_serves [LawfulStoolap] (name : String) {schema : Schema} (noKey : schema.pkColumn = none)
    (rows : List IdRow) : Serves (TableView.ofRows name schema rows) rows where
  toShows := TableView.ofRows_shows name schema rows
  filtered filter := ⟨_, rfl, by simp⟩
  byId id := ⟨_, rfl, by simp [eq_comm]⟩
  rowId column isKey := by
    rw [TableView.ofRows, noKey] at isKey
    cases isKey

/-- The read gives these rows and ends. -/
def Delivers (table : TableView) (read : Option Source) (rows : List IdRow) : Prop :=
  ∀ fuel, rows.length < fuel → readAll (fun _ => table) fuel read = some rows

variable {table : TableView} {rows : List IdRow}

theorem delivers_scan (table : TableView) (rows : List IdRow) : Delivers table (some (.scan rows)) rows := by
  intro fuel enough
  induction rows generalizing fuel with
  | nil =>
      cases fuel with
      | zero => simp at enough
      | succ fuel => rfl
  | cons row rest ih =>
      cases fuel with
      | zero => simp at enough
      | succ fuel =>
          simp only [List.length_cons, Nat.add_lt_add_iff_right] at enough
          simp only [readAll, rndNext, Source.nextRow, Source.exhausted, Bool.false_eq_true, if_false,
            ih fuel enough, Option.map_some]

theorem delivers_sorted (table : TableView) (rows : List IdRow) : Delivers table (some (.sorted rows)) rows :=
  fun _ enough => readAll_loaded _ rfl enough

theorem Delivers.ended {read : Option Source} (delivers : Delivers table read []) :
    ∃ after, rndNext read table = (.endOfFile, after) := by
  have run := delivers 1 (by decide)
  simp only [readAll] at run
  rcases stepped : rndNext read table with ⟨step, after⟩
  rw [stepped] at run
  cases step with
  | endOfFile => exact ⟨after, rfl⟩
  | row row => simp at run
  | error message => cases run

theorem Delivers.first {read : Option Source} {row : IdRow} {rest : List IdRow}
    (delivers : Delivers table read (row :: rest)) :
    ∃ after, rndNext read table = (.row row, after) ∧ Delivers table after rest := by
  have run (fuel : Nat) (enough : rest.length < fuel) := delivers (fuel + 1) (by simpa using enough)
  simp only [readAll] at run
  rcases stepped : rndNext read table with ⟨step, after⟩
  simp only [stepped] at run
  cases step with
  | endOfFile => exact absurd (run (rest.length + 1) (by omega)) (by simp)
  | error message => exact absurd (run (rest.length + 1) (by omega)) (by simp)
  | row other =>
      obtain ⟨_, given, same⟩ := Option.map_eq_some_iff.mp (run (rest.length + 1) (by omega))
      obtain ⟨rfl, rfl⟩ := List.cons.inj same
      refine ⟨after, rfl, fun fuel enough => ?_⟩
      obtain ⟨_, given, same⟩ := Option.map_eq_some_iff.mp (run fuel enough)
      rw [given, (List.cons.inj same).2]

/-- Whether every condition takes the row. -/
def taken (exprs : List Expression) (row : IdRow) : Bool := exprs.all fun expr => expr.eval row.2 = some true

theorem taken_iff {exprs : List Expression} {row : IdRow} : taken exprs row = true ↔ Holds row.2 exprs := by
  simp only [taken, List.all_eq_true, decide_eq_true_eq, Read.Holds]

theorem filterOf_eval {exprs : List Expression} {filter : Expression} (joined : filterOf exprs = some filter)
    (row : Row) : filter.eval row = some true ↔ Holds row exprs := by
  rw [← filterOf_takes, joined]
  simp

theorem scan_filterOf (serves : Serves table rows) (exprs : List Expression) :
    ∃ found, table.scan (filterOf exprs) = .ok found ∧ found.Perm (rows.filter (taken exprs)) := by
  cases joined : filterOf exprs with
  | none =>
      have all (row : IdRow) : taken exprs row = true := by
        rw [taken_iff, ← filterOf_takes, joined]
        exact nofun
      exact ⟨rows, serves.scan, by rw [List.filter_eq_self.mpr fun row _ => all row]⟩
  | some filter =>
      obtain ⟨found, scanned, perm⟩ := serves.filtered filter
      refine ⟨found, scanned, ?_⟩
      have same : (rows.filter fun row => filter.eval row.2 = some true) = rows.filter (taken exprs) :=
        List.filter_congr fun row _ => by
          rw [Bool.eq_iff_iff, decide_eq_true_eq, filterOf_eval joined, taken_iff]
      rwa [same] at perm

/-- A lookup of the primary key finds the rows its condition takes. -/
theorem lookupId_rows [lawful : LawfulStoolap] (serves : Serves table rows) {conds : List Node}
    {exprs : List Expression} {id : Int64} (found : lookupId table.schema conds = some id)
    (built : buildExpressions table.schema table.name conds [] = .ok exprs) :
    rows.filter (fun row => row.1 = id) = rows.filter (taken exprs) := by
  unfold lookupId at found
  split at found
  · rename_i column value
    split at found
    · rename_i isKey
      split at found
      · rename_i col here
        split at found
        · rename_i stored coerced
          cases found
          have expr : exprs = [.comparison column .eq (some (.integer id))] := by
            simp only [buildExpressions, buildNode, condExpression, here, coerced, Except.map, List.nil_append,
              Except.ok.injEq] at built
            exact built.symm
          subst expr
          refine List.filter_congr fun row member => ?_
          rw [Bool.eq_iff_iff, decide_eq_true_eq, taken_iff, holds_singleton, Expression.eval,
            serves.rowId column isKey row member, compareValue, lawful.compare_integer]
          simp [Operator.holds]
        · cases found
      · cases found
    · cases found
  · cases found

/-- A read gives the rows all its conditions take, each once. -/
theorem ordered_filtered [LawfulStoolap] {spec : ReadSpec} {exprs : List Expression} (serves : Serves table rows)
    (names : spec.Names table.schema) (built : buildExpressions table.schema table.name spec.conds [] = .ok exprs) :
    ∃ source found, ordered table spec = .ok source ∧ Delivers table (some source) found ∧
      found.Perm (rows.filter (taken exprs)) := by
  by_cases whole : spec.conds = [] ∧ spec.order ≠ []
  · obtain ⟨source, delivered, opened, reads, perm, -⟩ := ordered_delivers serves.toShows names whole.1 whole.2
    have none_ : exprs = [] := by
      rw [whole.1] at built
      exact (Except.ok.inj built).symm
    subst none_
    have all : rows.filter (taken []) = rows := List.filter_eq_self.mpr fun row _ => rfl
    exact ⟨source, delivered, opened, fun fuel enough => reads fuel (by rwa [← perm.length_eq]), by rwa [all]⟩
  · have counted : checkColumns table spec.tableColumns = .ok () := by simp [checkColumns, names.count]
    have inRange : (spec.columns ++ spec.order).find? (fun column =>
        decide (table.schema.columns.length ≤ column)) = none := by
      rw [List.find?_eq_none]
      intro column member
      rcases List.mem_append.mp member with read | sorted
      · simpa using names.columns column read
      · simpa using names.order column sorted
    have same : ordered table spec = openRead table spec := by
      unfold ordered
      split
      · rename_i column order
        have conds : spec.conds.isEmpty = false := by
          rw [List.isEmpty_eq_false_iff]
          exact fun empty => whole ⟨empty, by simp [order]⟩
        simp [conds]
      · rfl
    rw [same]
    simp only [openRead, counted, inRange]
    cases lookup : lookupId table.schema spec.conds with
    | some id =>
        obtain ⟨found, fetched, perm⟩ := serves.byId id
        rw [lookupId_rows serves lookup built] at perm
        exact ⟨.sorted found, found, by simp only [fetched, Except.map], delivers_sorted table found, perm⟩
    | none =>
        obtain ⟨found, scanned, perm⟩ := scan_filterOf serves exprs
        simp only [built, scanned, Except.map]
        by_cases unordered : spec.order.isEmpty = true
        · simp only [unordered, if_true]
          exact ⟨.scan found, found, rfl, delivers_scan table found, perm⟩
        · simp only [unordered]
          exact ⟨.sorted _, _, rfl, delivers_sorted table _, (sortedRows_perm found spec.order spec.desc).trans perm⟩

namespace Handler

variable {h : Handler}

/-- A call gives the next row the filter keeps, or the end. -/
theorem next_delivers {read : Option Source} (filter : RowFilter) (delivers : Delivers h.table read rows) {fuel : Nat}
    (enough : rows.length < fuel) :
    ((rows.filter fun row => h.keeps filter row.2) = [] ∧
        ∃ after, h.next fuel ⟨read, filter⟩ = (.endOfFile, after)) ∨
      ∃ row rest after, (rows.filter fun row => h.keeps filter row.2) =
          row :: rest.filter (fun row => h.keeps filter row.2) ∧
        rest.length < rows.length ∧ Delivers h.table after rest ∧
        h.next fuel ⟨read, filter⟩ = (.row row, ⟨after, filter⟩) := by
  induction rows generalizing read fuel with
  | nil =>
      cases fuel with
      | zero => simp at enough
      | succ fuel =>
          obtain ⟨after, ended⟩ := delivers.ended
          exact .inl ⟨rfl, ⟨after, filter⟩, by simp only [next, ended]⟩
  | cons row rest ih =>
      cases fuel with
      | zero => simp at enough
      | succ fuel =>
          obtain ⟨after, given, remain⟩ := delivers.first
          simp only [List.length_cons, Nat.add_lt_add_iff_right] at enough
          by_cases kept : h.keeps filter row.2 = true
          · refine .inr ⟨row, rest, after, by simp [kept], by simp, remain, ?_⟩
            simp only [next, given, kept, if_true]
          · have skipped : ((row :: rest).filter fun row => h.keeps filter row.2) =
                rest.filter fun row => h.keeps filter row.2 := by simp [kept]
            rw [skipped]
            have onward : h.next (fuel + 1) ⟨read, filter⟩ = h.next fuel ⟨after, filter⟩ := by
              simp only [next, given, kept, Bool.false_eq_true, if_false]
            rw [onward]
            rcases ih remain enough with ended | ⟨found, others, last, same, fewer, left, stepped⟩
            · exact .inl ended
            · exact .inr ⟨found, others, last, same, by simp only [List.length_cons]; omega, left, stepped⟩

/-- From the first call on, the rows the filter keeps. -/
theorem rowsFrom_delivers {read : Option Source} (filter : RowFilter) (delivers : Delivers h.table read rows)
    {fuel calls : Nat} (enough : rows.length < fuel) (more : rows.length < calls) :
    h.rowsFrom fuel calls (h.next fuel ⟨read, filter⟩) = some (rows.filter fun row => h.keeps filter row.2) := by
  induction calls generalizing read rows with
  | zero => simp at more
  | succ calls ih =>
      rcases next_delivers filter delivers enough with ⟨nothing, after, ended⟩ |
        ⟨row, rest, after, same, fewer, left, stepped⟩
      · rw [ended, nothing]
        rfl
      · rw [stepped, same]
        simp only [rowsFrom, ih left (by omega) (by omega), Option.map_some]

end Handler

/-- How the plugin describes a part to stoolap: a VARCHAR it reads itself is
utf8mb4, and the column keeps the values the part's fields are stored as. -/
structure Describes (schema : Schema) (p : KeyPart) (f : StoolapField) : Prop where
  column : f.columnIndex = p.column.field.fieldIndex
  inSchema : InSchema schema f
  varchar : f.kind = .varchar → p.column.field.realType = .varchar ∧ textIsUtf8 p.column.field.charset = true ∧
    p.column.field.isTraditionalScalarType = true
  casts : ∀ datum scalar, Typed p.column datum → extractField p.column datum = some scalar →
    ∀ column, schema.columns[f.columnIndex]? = some column → Stoolap.coerce column.dataType (some scalar) = some scalar

/-- A key's value as stoolap reads it from the record it was restored into. -/
def keyValueOf (c : TableField) : Option Datum → KeyValue
  | none => .null
  | some datum =>
      match extractField c datum with
      | some scalar => .value (some scalar)
      | none => .beyond

/-- MariaDB's comparisons agree with stoolap's where the plugin counts on it:
doubles compare alike, and a binary or NO PAD `_bin` collation calls only equal
texts equal. -/
structure Comparisons.Lawful (cmp : Comparisons) : Prop where
  real : ∀ left right, cmp.real left right = Stoolap.compare (.float left) (.float right)
  binary : ∀ p : KeyPart, p.column.field.realType.isString = true → keyPartNeedsFilter p false = false →
    ∀ left right, cmp.collate p left right = .eq ↔ left = right

/-- A stored row's value of a field has its type, and stoolap holds it. -/
def Held (c : TableField) (value : Option Datum) : Prop :=
  ∀ datum, value = some datum → Typed c datum ∧ (extractField c datum).isSome = true

omit [Stoolap] in
theorem storedRow_value {columns : List TableField} {c : TableField} (found : columns[c.field.fieldIndex]? = some c)
    (row : Int64 × FieldRow) :
    (storedRow columns row).2.value c.field.fieldIndex = (row.2.value c).bind (extractField c) := by
  simp only [storedRow, Row.value, FieldRow.value, List.getElem?_zipWith, found]
  cases row.2[c.field.fieldIndex]? <;> rfl

omit [Stoolap] in
/-- A read row's fields are the row's. -/
theorem recordValue_storedRow {columns : List TableField} {c : TableField}
    (found : columns[c.field.fieldIndex]? = some c) {row : Int64 × FieldRow} (held : Held c (row.2.value c)) :
    recordValue (storedRow columns row).2 c = row.2.value c := by
  rw [recordValue, storedRow_value found]
  cases value : row.2.value c with
  | none => rfl
  | some datum =>
      obtain ⟨typed, stored⟩ := held datum value
      obtain ⟨scalar, extracted⟩ := Option.isSome_iff_exists.mp stored
      simp only [Option.bind_some, extracted, Option.map_some, storeCell_extractField typed extracted]

/-- The table and the index a handler reads, as MariaDB and the plugin set them
up: at most 32 parts, each described to stoolap, and rows stoolap can hold. -/
structure Handler.Indexed (h : Handler) (rows : List (Int64 × FieldRow)) : Prop where
  key : ∃ info, h.keys[h.activeIndex]? = some info
  limit : h.parts.length ≤ 32
  described : List.Forall₂ (Describes h.table.schema) h.parts h.indexParts
  found : ∀ p ∈ h.parts, h.columns[p.column.field.fieldIndex]? = some p.column
  count : h.columns.length = h.table.schema.columns.length
  readFields : ∀ column ∈ h.readFields, column < h.table.schema.columns.length
  held : ∀ row ∈ rows, ∀ p ∈ h.parts, Held p.column (row.2.value p.column)
  serves : Serves h.table (rows.map (storedRow h.columns))
  lawful : h.cmp.Lawful

omit [Stoolap] in
theorem extractField_injective {c : TableField} {left right : Datum} {scalar : Scalar} (leftTyped : Typed c left)
    (rightTyped : Typed c right) (one : extractField c left = some scalar) (two : extractField c right = some scalar) :
    left = right := by
  rw [← storeCell_extractField leftTyped one, storeCell_extractField rightTyped two]

omit [Stoolap] in
theorem keyCmp_congr (cmp : Comparisons) {parts : List KeyPart} {key : List (Option Datum)}
    {row other : TableField → Option Datum} (same : ∀ p ∈ parts, row p.column = other p.column) :
    cmp.keyCmp parts key row = cmp.keyCmp parts key other := by
  induction parts generalizing key with
  | nil => rfl
  | cons p parts ih =>
      cases key with
      | nil => rfl
      | cons first key =>
          rw [Comparisons.keyCmp, Comparisons.keyCmp, same p (by simp), ih fun p member => same p (by simp [member])]

omit [Stoolap] in
theorem columnOf_lt {parts : List KeyPart} {columns : List TableField}
    (found : ∀ p ∈ parts, columns[p.column.field.fieldIndex]? = some p.column) {index : Nat} (inParts : index < parts.length) :
    columnOf parts index < columns.length := by
  have here := found parts[index] (List.getElem_mem inParts)
  rw [columnOf, List.getElem?_eq_getElem inParts]
  exact (List.getElem?_eq_some_iff.mp here).1

/-- A read of the handler gives the rows its conditions take. -/
theorem Handler.openRead_delivers [LawfulStoolap] {h : Handler} {rows : List (Int64 × FieldRow)}
    (indexed : h.Indexed rows) {bounds : List StoolapKeyBound} {order : List Nat} (desc : Bool) {conds : List Node}
    {exprs : List Expression} (ordering : ∀ column ∈ order, column < h.columns.length)
    (read : readConds h.indexParts h.encodeCell bounds [] = .ok (some conds))
    (built : buildExpressions h.table.schema h.table.name conds [] = .ok exprs) :
    ∃ source found, h.openRead bounds order desc = .ok source ∧ Delivers h.table (some source) found ∧
      found.Perm ((rows.map (storedRow h.columns)).filter (taken exprs)) := by
  obtain ⟨source, found, opened, delivers, perm⟩ := @ordered_filtered _ h.table _ _
    { tableColumns := h.columns.length, columns := h.readFields, conds, order, desc, fixed := h.fixed } exprs
    indexed.serves ⟨indexed.count, indexed.readFields, fun column member => indexed.count ▸ ordering column member⟩ built
  exact ⟨source, found, by simp only [openRead, read, opened], delivers, perm⟩

/-- The rows a filter keeps of those the conditions take are the wanted ones,
each once. -/
theorem Handler.rows_of_found {h : Handler} {rows : List (Int64 × FieldRow)} {exprs : List Expression}
    {filter : RowFilter} {found : List IdRow} {wanted : Int64 × FieldRow → Bool}
    (perm : found.Perm ((rows.map (storedRow h.columns)).filter (taken exprs)))
    (same : ∀ row ∈ rows, (taken exprs (storedRow h.columns row) && h.keeps filter (storedRow h.columns row).2) =
      wanted row) :
    ∃ delivered : List (Int64 × FieldRow), delivered.Perm (rows.filter wanted) ∧
      found.filter (fun row => h.keeps filter row.2) = delivered.map (storedRow h.columns) := by
  have kept := perm.filter fun row => h.keeps filter row.2
  rw [List.filter_filter, List.filter_map] at kept
  obtain ⟨delivered, spelled, order⟩ := exists_map_of_perm kept
  refine ⟨delivered, ?_, spelled.symm⟩
  have rowsSame : rows.filter ((fun row => h.keeps filter row.2 && taken exprs row) ∘ storedRow h.columns) =
      rows.filter wanted := List.filter_congr fun row member => by
    rw [Function.comp, Bool.and_comm]
    exact same row member
  rwa [rowsSame] at order

end StoolapMariadb.KeyRead
