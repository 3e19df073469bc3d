import StoolapMariadb.RecordCodec
import StoolapMariadb.SqlWrite
import StoolapMariadb.UpdateAtomic

namespace StoolapMariadb.ChangedFields

/-! The update of a row from its old and its new record, which sets the fields
whose bytes differ and no others. -/

open Record Write

/-- Whether `f` holds the same bytes in both records. -/
def sameIn (f : StoolapField) (a b : RecordBuffer) : Bool :=
  if isNull f a ≠ isNull f b then false
  else Bytes.read a f.offset.toNat f.packLength.toNat = Bytes.read b f.offset.toNat f.packLength.toNat

/-- What a statement writes, as what it makes of the rows. -/
abbrev Change := TxRows → TxRows

def applied (changes : List Change) (rows : TxRows) : TxRows := changes.foldl (fun rows change => change rows) rows

/-- What the update finds: the engine and the table, the table's columns as
MariaDB counts them and as the session names them, whether the table's write
handle can be had, and the session with what the engine answers to SQL's UPDATE
of the row a key names. -/
structure Target where
  engine : Engine
  table : TableDef
  tableColumns : Int32
  columnNames : Except Error (List String)
  withWriteTable : Except Error Bool
  session : Session Change
  answers : List (String × Value) → List (String × Value) → TxRows → Session.Calls Change

/-- An error of a direct write, or of the session. -/
abbrev Failure := Error ⊕ Session.Error

def columns (tableColumns : Int32) : Except Error Nat :=
  if tableColumns < 0 then .error (.internal "bad column count") else .ok tableColumns.toNatClampNeg

def valuesOf [Stoolap] (fields : List StoolapField) (src : RecordIn) : Except Error (List Value) :=
  (readValues fields src).mapError .internal

/-- `fields`' column names and their values in `src`. -/
def named [Stoolap] (target : Target) (fields : List StoolapField) (src : RecordIn) :
    Except Error (List (String × Value)) := do
  let names ← target.columnNames
  fields.mapM fun f =>
    match names[f.columnIndex]? with
    | none => .error (.internal "column out of range")
    | some name => (readValue f src).mapError .internal |>.map fun value => (name, value)

/-- On the write handle. -/
def updateDirect [Stoolap] (target : Target) (rowId : Int64) (changed : List StoolapField) (new : RecordIn)
    (rows : TxRows) : Except Error Int64 × TxRows :=
  match valuesOf changed new with
  | .error error => (.error error, rows)
  | .ok values =>
      match columns target.tableColumns with
      | .error error => (.error error, rows)
      | .ok count =>
          update target.engine target.table count rowId (changed.map StoolapField.columnIndex) values rows

/-- The UPDATE by `sql_write::update`, and the rows with what it wrote. -/
def sqlUpdate (target : Target) (set key : List (String × Value)) (rows : TxRows) : Except Session.Error Int64 × TxRows :=
  let (result, after) := SqlWrite.update (key.map Prod.fst) (target.answers set key rows) target.session
  (result, applied ((SqlWrite.seen after).drop (SqlWrite.seen target.session).length) rows)

/-- Through SQL, the row named by its key. -/
def updateSql [Stoolap] (target : Target) (changed keys : List StoolapField) (old new : RecordIn) (rows : TxRows) :
    Except Failure Int64 × TxRows :=
  match named target changed new with
  | .error error => (.error (.inl error), rows)
  | .ok set =>
      match named target keys old with
      | .error error => (.error (.inl error), rows)
      | .ok key =>
          let (result, after) := sqlUpdate target set key rows
          (result.mapError .inr, after)

/-- `stoolap_update_record`; `rowId` when the caller has it. -/
def updateRecord [Stoolap] (target : Target) (rowId : Option Int64) (fields keys : List StoolapField)
    (old new : RecordIn) (rows : TxRows) : Except Failure Int64 × TxRows :=
  let changed := fields.filter fun f => !sameIn f old.record new.record
  if changed.isEmpty then (.ok 1, rows)
  else
    match rowId with
    | none => updateSql target changed keys old new rows
    | some rowId =>
        match target.withWriteTable with
        | .error error => (.error (.inl error), rows)
        | .ok true =>
            let (result, after) := updateDirect target rowId changed new rows
            (result.mapError .inl, after)
        | .ok false => updateSql target changed keys old new rows

/-- A VARCHAR's length counts bytes of its own. -/
def Bounded (f : StoolapField) (record : RecordBuffer) : Prop :=
  f.kind = .varchar → isNull f record = false →
    f.length.toNat + Bytes.fromLe (Bytes.read record f.offset.toNat f.length.toNat) ≤ f.packLength.toNat

/-- The record a row was read back into: its fields read as the row's values,
with no call of the plugin. -/
structure ReadBack [Stoolap] (fields : List StoolapField) (row : Row) (record : RecordBuffer) : Prop where
  values : readValues fields { record, encode := none } = .ok (fields.map fun f => row.value f.columnIndex)
  bounded : ∀ f ∈ fields, Bounded f record

/-- `left` is `row` with every field of the list set to the record's value. -/
structure SetTo [Stoolap] (fields : List StoolapField) (src : RecordIn) (row left : Row) : Prop where
  listed : readValues fields src = .ok (fields.map fun f => left.value f.columnIndex)
  others : ∀ column ∉ fields.map StoolapField.columnIndex, left.value column = row.value column

/-- What an update leaves of row `id`: under its id, or the one its primary key
now is. -/
def Leaves (table : TableDef) (id : Int64) (after : TxRows) (left : Row) : Prop :=
  ∃ newId, rowAt after newId = some left ∧
    (newId = id ∨ ∃ pk, table.schema.pkColumn = some pk ∧ left.value pk = some (.integer newId))

/-- An update that succeeds finds no row, or sets the columns of the one it
finds. -/
def Sets {ε : Type} (table : TableDef) (id : Int64) (columns : List Nat) (values : List Value) (rows : TxRows)
    (result : Except ε Int64 × TxRows) : Prop :=
  ∀ count after, result = (.ok count, after) →
    (count = 0 ∧ rowAt rows id = none) ∨
      (count = 1 ∧ ∃ row left, rowAt rows id = some row ∧ setColumns row (columns.zip values) = .ok left ∧
        Leaves table id after left)

/-- The call names row `id`: by its id, or by the key in the old record, whose
row the engine's UPDATE sets the columns named in. -/
structure Names [Stoolap] (target : Target) (rowId : Option Int64) (keys : List StoolapField) (old : RecordIn)
    (rows : TxRows) (id : Int64) : Prop where
  byId : ∀ known, rowId = some known → known = id
  byKey : ∀ columnNames key, target.columnNames = .ok columnNames → named target keys old = .ok key →
    ∀ columns set,
      List.Forall₂ (fun column (assigned : String × Value) => columnNames[column]? = some assigned.1) columns set →
      Sets target.table id columns (set.map Prod.snd) rows
        ((target.answers set key rows).execution.result, applied (target.answers set key rows).execution.writes rows)

section Same

variable {f : StoolapField} {a b : RecordBuffer}

theorem sameIn_iff : sameIn f a b = true ↔ isNull f a = isNull f b ∧
    Bytes.read a f.offset.toNat f.packLength.toNat = Bytes.read b f.offset.toNat f.packLength.toNat := by
  rw [sameIn]
  split
  · rename_i differs
    simp [differs]
  · rename_i agrees
    rw [decide_eq_true_eq]
    exact (and_iff_right (not_not.mp agrees)).symm

/-- What lies within the field is the same in both. -/
theorem read_same (same : sameIn f a b = true) {offset count : Nat} (lower : f.offset.toNat ≤ offset)
    (upper : offset + count ≤ f.offset.toNat + f.packLength.toNat) :
    Bytes.read b offset count = Bytes.read a offset count := by
  apply Bytes.read_congr
  intro address from_ below
  exact (Bytes.eq_of_read (sameIn_iff.mp same).2 (by omega) (by omega)).symm

theorem readDirect_same [Stoolap] (shaped : f.Shaped) (clear : isNull f a = false) (bounded : Bounded f a)
    (same : sameIn f a b = true) : readDirect f b = readDirect f a := by
  simp only [StoolapField.Shaped] at shaped
  cases kind : f.kind with
  | int =>
      rw [kind] at shaped
      have number : readInt f b = readInt f a := by
        rw [readInt, readInt, read_same same (Nat.le_refl _) (Nat.add_le_add_left shaped.2 _)]
      simp only [readDirect, kind, number]
  | double =>
      rw [kind] at shaped
      have number := read_same same (Nat.le_refl _) (Nat.add_le_add_left shaped _)
      simp only [readDirect, kind, number]
  | varchar =>
      rw [kind] at shaped
      have size := bounded kind clear
      have counted := @read_same f a b same f.offset.toNat f.length.toNat (Nat.le_refl _) (by omega)
      have text := @read_same f a b same (f.offset.toNat + f.length.toNat)
        (Bytes.fromLe (Bytes.read a f.offset.toNat f.length.toNat)) (by omega) (by omega)
      simp only [readDirect, kind, counted, text]
  | store => rw [kind] at shaped; exact shaped.elim
  | float => rw [kind] at shaped; exact shaped.elim

/-- A field found the same is read as the same value. -/
theorem readValue_same [Stoolap] (shaped : f.Shaped) (bounded : Bounded f a) (same : sameIn f a b = true) {v : Value}
    (read : readValue f { record := a, encode := none } = .ok v)
    (encode : Option (Int32 → RecordBuffer → Except EncodeError Value)) :
    readValue f { record := b, encode } = .ok v := by
  have nulls := (sameIn_iff.mp same).1
  rw [readValue] at read ⊢
  dsimp only at read ⊢
  cases null : isNull f a with
  | true =>
      rw [null, if_pos rfl] at read
      rw [← nulls, null, if_pos rfl, read]
  | false =>
      rw [null, if_neg Bool.false_ne_true] at read
      rw [← nulls, null, if_neg Bool.false_ne_true, readDirect_same shaped null bounded same]
      cases direct : readDirect f a with
      | none =>
          rw [direct] at read
          cases read
      | some value =>
          rw [direct] at read
          exact read

/-- What the field took, it has the room for. -/
theorem bounded_of_holds (shaped : f.Shaped) {v : Value} (held : Holds f a v) : Bounded f a := by
  intro kind clear
  simp only [StoolapField.Shaped, kind] at shaped
  obtain ⟨narrow, room, fits⟩ := shaped
  cases v with
  | none => exact absurd (clear.symm.trans held) (by decide)
  | some value =>
      obtain ⟨_, bytes, taken, spelled⟩ := held
      cases value <;> simp only [directBytes, kind, reduceCtorEq] at taken
      rename_i text
      split at taken
      · cases taken
      · rename_i short
        rw [textBytes_eq narrow room (Nat.le_of_not_lt short)] at taken
        cases taken
        rw [List.length_append, Bytes.length_toLe, Bytes.read_add] at spelled
        have counted := (List.append_inj spelled (by rw [Bytes.length_read, Bytes.length_toLe])).1
        rw [counted, Bytes.fromLe_toLe]
        have small := Nat.mod_le text.length (256 ^ f.length.toNat)
        omega

end Same

/-- A record a row was written into is one it was read back into. -/
theorem readBack_written [Stoolap] {fields : List StoolapField} {row : Row} (layout : Layout fields)
    (record : RecordBuffer) (takes : ∀ f ∈ fields, f.Takes (row.value f.columnIndex))
    (own : ∀ f ∈ fields, ∀ value, row.value f.columnIndex = some value → f.Owns value) :
    ReadBack fields row (writtenAll fields row record) := by
  have held := @holds_writtenAll record row fields layout takes
  refine ⟨?_, fun f member => bounded_of_holds (layout.wellFormed f member).shaped (held f member)⟩
  rw [readValues, ExceptList.mapM_ok, List.forall₂_map_right_iff, List.forall₂_same]
  exact fun f member =>
    readValue_of_holds (layout.wellFormed f member).shaped (own f member) (held f member) none

section Sets

variable {row left full : Row} {fields : List StoolapField}

theorem value_set (row : Row) {column : Nat} (value : Value) (within : column < row.length) :
    Row.value (row.set column value) column = value := by
  simp [Row.value, within]

/-- A column set once has the value it is set to. -/
theorem setColumns_assigned {assignments : List (Nat × Value)} (set : setColumns row assignments = .ok left)
    (distinct : (assignments.map Prod.fst).Nodup) {column : Nat} {value : Value}
    (assigned : (column, value) ∈ assignments) : left.value column = value := by
  induction assignments generalizing row with
  | nil => cases assigned
  | cons assignment assignments ih =>
      obtain ⟨target, given⟩ := assignment
      simp only [setColumns] at set
      simp only [List.map_cons, List.nodup_cons] at distinct
      split at set
      · rename_i within
        rcases List.mem_cons.mp assigned with here | later
        · cases here
          have kept : left.value column = Row.value (row.set column value) column :=
            setColumns_value set fun assignment member same =>
              distinct.1 (same ▸ List.mem_map_of_mem member)
          rw [kept, value_set row value within]
        · exact ih set distinct.2 later
      · cases set

/-- The values of the fields, set one column each. -/
theorem setColumns_fields [Stoolap] {src : RecordIn} {values : List Value}
    (distinct : (fields.map StoolapField.columnIndex).Nodup) (read : readValues fields src = .ok values)
    (set : setColumns row ((fields.map StoolapField.columnIndex).zip values) = .ok left) :
    SetTo fields src row left := by
  have related := ExceptList.mapM_ok.mp read
  have sizes : (fields.map StoolapField.columnIndex).length = values.length := by
    rw [List.length_map, related.length_eq]
  have columns : ((fields.map StoolapField.columnIndex).zip values).map Prod.fst =
      fields.map StoolapField.columnIndex := by
    rw [List.map_fst_zip (Nat.le_of_eq sizes)]
  refine ⟨?_, fun column unlisted => setColumns_frame set unlisted⟩
  have given : values = fields.map fun f => left.value f.columnIndex := by
    apply List.ext_getElem
    · rw [← related.length_eq, List.length_map]
    · intro index below _
      have within : index < ((fields.map StoolapField.columnIndex).zip values).length := by
        rw [List.length_zip, sizes, Nat.min_self]
        exact below
      have assigned := List.getElem_mem within
      rw [List.getElem_zip] at assigned
      rw [List.getElem_map, ← setColumns_assigned set (by rwa [columns]) assigned, List.getElem_map]
  rw [read, ← given]

/-- There is one way to set them. -/
theorem SetTo.value_eq [Stoolap] {src : RecordIn} (one : SetTo fields src row left) (other : SetTo fields src row full)
    (column : Nat) : left.value column = full.value column := by
  by_cases listed : column ∈ fields.map StoolapField.columnIndex
  · obtain ⟨f, member, rfl⟩ := List.mem_map.mp listed
    have same := Except.ok.inj (one.listed.symm.trans other.listed)
    exact List.map_eq_map_iff.mp same f member
  · rw [one.others column listed, other.others column listed]

theorem readValues_map [Stoolap] {src : RecordIn} {values : StoolapField → Value} :
    readValues fields src = .ok (fields.map values) ↔ ∀ f ∈ fields, readValue f src = .ok (values f) := by
  rw [readValues, ExceptList.mapM_ok, List.forall₂_map_right_iff, List.forall₂_same]

end Sets

section Update

variable {engine : Engine} {table : TableDef} {id : Int64} {columns : List Nat} {values : List Value} {rows : TxRows}

theorem Sets.refused {error : Error} {after : TxRows} : Sets table id columns values rows (.error error, after) := by
  intro count left failed
  cases failed

theorem Sets.absent {after : TxRows} (gone : rowAt rows id = none) :
    Sets table id columns values rows ((.ok 0, after) : Except Error Int64 × TxRows) := by
  intro count left found
  cases found
  exact .inl ⟨rfl, gone⟩

theorem updateByRowId_sets :
    Sets table id columns values rows
      (updateByRowId engine id (fun row => setColumns row (columns.zip values)) rows) := by
  unfold updateByRowId
  split
  · exact Sets.refused
  · split
    · rename_i gone
      exact Sets.absent (by rw [rowAt, gone]; rfl)
    · rename_i stored found
      have was : rowAt rows id = some stored.row := by rw [rowAt, found]; rfl
      split
      · exact Sets.refused
      · rename_i left set
        intro count after updated
        cases updated
        refine .inr ⟨rfl, stored.row, left, was, set, id, ?_, .inl rfl⟩
        rw [rowAt_replace was, Function.update_self]

theorem updateInPlace_sets [Stoolap] :
    Sets table id columns values rows (updateInPlace engine table id columns values rows) := by
  unfold updateInPlace
  dsimp only
  split
  · exact updateByRowId_sets
  · split
    · exact Sets.refused
    · rename_i gone
      exact Sets.absent (fetchRow_none gone)
    · split
      · exact Sets.refused
      · split
        · exact Sets.refused
        · exact updateByRowId_sets

theorem updateMove_sets [Stoolap] {pk : Nat} (isPk : table.schema.pkColumn = some pk) :
    Sets table id columns values rows (updateMove engine table id columns values rows) := by
  unfold updateMove
  split
  · exact Sets.refused
  · rename_i gone
    exact Sets.absent (fetchRow_none gone)
  · rename_i old fetched
    have was := fetchRow_some fetched
    split
    · exact Sets.refused
    · rename_i left set
      dsimp only
      split
      · exact Sets.refused
      · split
        · exact Sets.refused
        · split
          · rename_i inserted
            obtain ⟨newId, rfl, fresh, -, primary⟩ := insertDiscard_ok inserted
            intro count after updated
            cases updated
            refine .inr ⟨rfl, old.row, left, was, set, newId, ?_, .inr ⟨pk, isPk, primary pk isPk⟩⟩
            rw [rowAt_append fresh, Function.update_self]
          · split
            · exact Sets.refused
            · exact Sets.refused

/-- `write::update`, whatever the engine refuses. -/
theorem update_sets [Stoolap] (tableColumns : Nat) :
    Sets table id columns values rows (update engine table tableColumns id columns values rows) := by
  unfold update
  split
  · exact Sets.refused
  · split
    · exact Sets.refused
    · cases isPk : table.schema.pkColumn with
      | none => exact updateInPlace_sets
      | some pk =>
          rw [Option.any_some]
          split
          · exact updateMove_sets isPk
          · exact updateInPlace_sets

end Update

/-- The session's part in the UPDATE changes nothing of it. -/
theorem sqlUpdate_ok {target : Target} {set key : List (String × Value)} {rows after : TxRows} {count : Int64}
    (updated : sqlUpdate target set key rows = (.ok count, after)) :
    (target.answers set key rows).execution.result = .ok count ∧
      applied (target.answers set key rows).execution.writes rows = after := by
  cases ran : SqlWrite.update (key.map Prod.fst) (target.answers set key rows) target.session with
  | mk result session =>
      simp only [sqlUpdate, ran] at updated
      obtain ⟨rfl, rfl⟩ := Prod.mk.inj updated
      obtain ⟨answered, seen⟩ := SqlWrite.update_ok ran
      exact ⟨answered, by rw [seen, List.drop_left]⟩

section Record

variable [Stoolap] {target : Target} {rowId : Option Int64} {fields keys : List StoolapField} {old new : RecordIn}
  {rows after : TxRows} {id count : Int64} {row left : Row}

/-- Setting the fields that differ sets every field of the list. -/
theorem SetTo.of_changed (shaped : ∀ f ∈ fields, f.Shaped)
    (distinct : (fields.map StoolapField.columnIndex).Nodup) (readBack : ReadBack fields row old.record)
    (changed : SetTo (fields.filter fun f => !sameIn f old.record new.record) new row left) :
    SetTo fields new row left := by
  have wasRead := readValues_map.mp readBack.values
  have nowRead := readValues_map.mp changed.listed
  refine ⟨readValues_map.mpr fun f member => ?_, fun column unlisted => changed.others column fun listed => ?_⟩
  · cases same : sameIn f old.record new.record with
    | false => exact nowRead f (List.mem_filter.mpr ⟨member, by rw [same]; rfl⟩)
    | true =>
        have unset : f.columnIndex ∉
            (fields.filter fun f => !sameIn f old.record new.record).map StoolapField.columnIndex := by
          intro listed
          obtain ⟨g, isChanged, sameColumn⟩ := List.mem_map.mp listed
          obtain ⟨isField, differs⟩ := List.mem_filter.mp isChanged
          obtain rfl := List.inj_on_of_nodup_map distinct isField member sameColumn
          rw [same] at differs
          cases differs
        rw [changed.others f.columnIndex unset]
        exact readValue_same (shaped f member) (readBack.bounded f member) same (wasRead f member) new.encode
  · obtain ⟨f, isChanged, rfl⟩ := List.mem_map.mp listed
    exact unlisted (List.mem_map_of_mem (List.mem_filter.mp isChanged).1)

theorem updateDirect_sets (distinct : (fields.map StoolapField.columnIndex).Nodup) (stored : rowAt rows id = some row)
    (updated : updateDirect target id fields new rows = (.ok count, after)) :
    count = 1 ∧ ∃ left, Leaves target.table id after left ∧ SetTo fields new row left := by
  rw [updateDirect] at updated
  split at updated
  · cases updated
  · rename_i values read
    split at updated
    · cases updated
    · rcases update_sets _ _ _ updated with ⟨_, gone⟩ | ⟨one, was, left, found, set, leaves⟩
      · rw [stored] at gone
        cases gone
      · rw [stored] at found
        cases found
        exact ⟨one, left, leaves, setColumns_fields distinct (ExceptList.mapError_ok.mp read) set⟩

theorem named_ok {set : List (String × Value)} (read : named target fields new = .ok set) :
    ∃ columnNames, target.columnNames = .ok columnNames ∧
      List.Forall₂ (fun column (assigned : String × Value) => columnNames[column]? = some assigned.1)
        (fields.map StoolapField.columnIndex) set ∧
      readValues fields new = .ok (set.map Prod.snd) := by
  obtain ⟨columnNames, hasNames, each⟩ := ExceptList.bind_ok.mp read
  refine ⟨columnNames, hasNames, ?_, ?_⟩
  · rw [List.forall₂_map_left_iff]
    refine (ExceptList.mapM_ok.mp each).imp fun f assigned given => ?_
    split at given
    · cases given
    · rename_i name named
      obtain ⟨value, -, rfl⟩ := ExceptList.map_ok.mp given
      exact named
  · rw [readValues, ExceptList.mapM_ok, List.forall₂_map_right_iff]
    refine (ExceptList.mapM_ok.mp each).imp fun f assigned given => ?_
    split at given
    · cases given
    · obtain ⟨value, isValue, rfl⟩ := ExceptList.map_ok.mp given
      exact ExceptList.mapError_ok.mp isValue

theorem updateSql_sets (distinct : (fields.map StoolapField.columnIndex).Nodup) (stored : rowAt rows id = some row)
    (names : Names target rowId keys old rows id)
    (updated : updateSql target fields keys old new rows = (.ok count, after)) :
    count = 1 ∧ ∃ left, Leaves target.table id after left ∧ SetTo fields new row left := by
  rw [updateSql] at updated
  split at updated
  · cases updated
  · rename_i set read
    obtain ⟨columnNames, hasNames, inOrder, values⟩ := named_ok read
    split at updated
    · cases updated
    · rename_i key isKey
      obtain ⟨result, rfl⟩ := Prod.mk.inj updated
      obtain ⟨answered, left⟩ := sqlUpdate_ok (Prod.ext (ExceptList.mapError_ok.mp result) rfl)
      rcases names.byKey columnNames key hasNames isKey _ set inOrder _ _ (Prod.ext answered left) with
        ⟨_, gone⟩ | ⟨one, was, left, found, assigned, leaves⟩
      · rw [stored] at gone
        cases gone
      · rw [stored] at found
        cases found
        exact ⟨one, left, leaves, setColumns_fields distinct values assigned⟩

/-- Setting only the fields found different leaves the row as setting every
field of the list would; with none of them different, the row has their values
already. -/
theorem update_changed (shaped : ∀ f ∈ fields, f.Shaped) (distinct : (fields.map StoolapField.columnIndex).Nodup)
    (readBack : ReadBack fields row old.record) (stored : rowAt rows id = some row)
    (names : Names target rowId keys old rows id) :
    ((∀ f ∈ fields, sameIn f old.record new.record = true) →
      updateRecord target rowId fields keys old new rows = (.ok 1, rows) ∧
      readValues fields new = .ok (fields.map fun f => row.value f.columnIndex)) ∧
    ∀ count after, updateRecord target rowId fields keys old new rows = (.ok count, after) →
      count = 1 ∧ ∃ left, Leaves target.table id after left ∧ SetTo fields new row left ∧
        ∀ values full, readValues fields new = .ok values →
          setColumns row ((fields.map StoolapField.columnIndex).zip values) = .ok full →
          ∀ column, left.value column = full.value column := by
  have setAll {left : Row} :=
    @SetTo.of_changed _ fields old new row left shaped distinct readBack
  refine ⟨fun same => ?_, fun count after updated => ?_⟩
  · have none_ : (fields.filter fun f => !sameIn f old.record new.record) = [] :=
      List.filter_eq_nil_iff.mpr fun f member => by rw [same f member]; exact Bool.false_ne_true
    refine ⟨?_, ?_⟩
    · simp only [updateRecord, none_, List.isEmpty_nil, if_true]
    · exact (setAll (none_ ▸ ⟨rfl, fun column _ => rfl⟩)).listed
  · have single : ((fields.filter fun f => !sameIn f old.record new.record).map StoolapField.columnIndex).Nodup :=
      distinct.sublist (List.filter_sublist.map StoolapField.columnIndex)
    suffices touched : count = 1 ∧ ∃ left, Leaves target.table id after left ∧ SetTo fields new row left by
      obtain ⟨one, left, leaves, isSet⟩ := touched
      exact ⟨one, left, leaves, isSet, fun values full read set =>
        isSet.value_eq (setColumns_fields distinct read set)⟩
    have whole (touched : count = 1 ∧ ∃ left, Leaves target.table id after left ∧
        SetTo (fields.filter fun f => !sameIn f old.record new.record) new row left) :
        count = 1 ∧ ∃ left, Leaves target.table id after left ∧ SetTo fields new row left := by
      obtain ⟨one, left, leaves, isSet⟩ := touched
      exact ⟨one, left, leaves, setAll isSet⟩
    simp only [updateRecord] at updated
    split at updated
    · rename_i none_
      cases updated
      rw [List.isEmpty_iff] at none_
      exact ⟨rfl, row, ⟨id, stored, .inl rfl⟩, setAll (none_ ▸ ⟨rfl, fun column _ => rfl⟩)⟩
    · split at updated
      · exact whole (updateSql_sets single stored names updated)
      · rename_i known
        obtain rfl := names.byId known rfl
        split at updated
        · cases updated
        · obtain ⟨result, rfl⟩ := Prod.mk.inj updated
          exact whole (updateDirect_sets single stored (Prod.ext (ExceptList.mapError_ok.mp result) rfl))
        · exact whole (updateSql_sets single stored names updated)

end Record

/-- A table of the two sample fields' columns. -/
def sampleTable : TableDef where
  name := "t"
  schema := { columns := [⟨"a", .integer⟩, ⟨"b", .text⟩], pkColumn := none }
  uniqueIndexes := []
  indexed := by decide

def sampleUpdateOf [Stoolap] (set : List (String × Value)) (rows : TxRows) : Except Error Int64 × TxRows :=
  update willing sampleTable 2 1 (set.map fun assigned => ["a", "b"].idxOf assigned.1) (set.map Prod.snd) rows

/-- Its SQL finds the row with id 1. -/
def sampleTarget [Stoolap] : Target where
  engine := willing
  table := sampleTable
  tableColumns := 2
  columnNames := .ok ["a", "b"]
  withWriteTable := .ok true
  session := .new
    { tables := ["t"], foreignKeys := [], committed := [], pending := fun _ => [], nextTx := 1, ended := [] }
  answers set _ rows :=
    { planFault := none
      execution :=
        { result := (sampleUpdateOf set rows).1.mapError fun _ => .engine "UPDATE"
          writes := [fun rows => (sampleUpdateOf set rows).2]
          keep := 0 }
      isolationLevel := .readCommitted
      beginFault := none
      commitFault := none
      rollbackFault := none
      tableFault := none }

def sampleRecord (row : Row) : RecordBuffer := writtenAll sampleFields row fun _ => 0

def sampleUpdate : Except Failure Int64 × TxRows :=
  @updateRecord Stoolap.reference (@sampleTarget Stoolap.reference) (some 1) sampleFields []
    { record := sampleRecord [some (.integer (-2)), some (.text [97, 98])], encode := none }
    { record := sampleRecord [some (.integer (-2)), some (.text [97, 99])], encode := none }
    [⟨1, [some (.integer (-2)), some (.text [97, 98])], false⟩]

theorem sampleTarget_names [Stoolap] (old : RecordIn) (rows : TxRows) :
    Names sampleTarget (some 1) [] old rows 1 := by
  refine ⟨fun known same => (Option.some.inj same).symm, fun columnNames key hasNames _ columns set inOrder => ?_⟩
  have given : columns = set.map fun assigned => ["a", "b"].idxOf assigned.1 := by
    cases hasNames
    rw [← List.forall₂_eq_eq_eq, List.forall₂_map_right_iff]
    refine inOrder.imp fun column assigned named => ?_
    obtain ⟨below, isName⟩ := List.getElem?_eq_some_iff.mp named
    rw [← isName, List.Nodup.idxOf_getElem (by decide)]
  rw [given]
  intro count after answered
  obtain ⟨result, rfl⟩ := Prod.mk.inj answered
  exact update_sets 2 count _ (Prod.ext (ExceptList.mapError_ok.mp result) rfl)

theorem update_changed_sample : sampleUpdate.1 = .ok 1 ∧
    ∃ left, Leaves (@sampleTarget Stoolap.reference).table 1 sampleUpdate.2 left ∧
      @SetTo Stoolap.reference sampleFields
        { record := sampleRecord [some (.integer (-2)), some (.text [97, 99])], encode := none }
        [some (.integer (-2)), some (.text [97, 98])] left := by
  let _ := Stoolap.reference
  have succeeded : sampleUpdate.1 = .ok 1 := by decide
  have shaped : ∀ f ∈ sampleFields, f.Shaped := fun f member => (sampleFields_layout.wellFormed f member).shaped
  have readBack := readBack_written sampleFields_layout (fun _ => 0) (by decide) sampleFields_own
  have updated := (update_changed shaped (by decide) readBack rfl (sampleTarget_names _ _)).2 1 sampleUpdate.2
    (Prod.ext succeeded rfl)
  obtain ⟨-, left, leaves, isSet, -⟩ := updated
  exact ⟨succeeded, left, leaves, isSet⟩

end StoolapMariadb.ChangedFields
