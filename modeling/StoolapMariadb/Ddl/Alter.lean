import StoolapMariadb.Ddl.ReadBack

namespace StoolapMariadb.Ddl

/-! The foreign keys of a table that copying ALTERs rebuild, from one copy to
the next through the text of its CREATE TABLE. -/

inductive ForeignKeyAction where
  | restrict
  | cascade
  | setNull
  | noAction
deriving DecidableEq

/-- A foreign key in the engine's schema of its table. -/
structure ForeignKeyConstraint where
  columnName : String
  referencedTable : String
  referencedColumn : String
  onDelete : ForeignKeyAction
  onUpdate : ForeignKeyAction
deriving DecidableEq

def ForeignKeyAction.code : ForeignKeyAction → Int32
  | .restrict => 1
  | .cascade => 3
  | .setNull => 4
  | .noAction => 2

/-- What the lookup of the altered table says. -/
inductive TableError where
  | tableNotFound
  | other (message : String)

section Kept

variable (toLowercase : String → String)

/-- Column names compare by case past ASCII too. -/
def same (left right : String) : Bool := toLowercase left = toLowercase right

/-- A column the ALTER renames goes by its new name. -/
def renamed (renames : List (String × String)) (column : String) : String :=
  match renames.find? fun rename => same toLowercase rename.1 column with
  | none => column
  | some rename => rename.2

def keptKey (renames : List (String × String)) (dropped : List String) (key : ForeignKeyConstraint) :
    Except String ForeignKeyDef :=
  if dropped.any fun column => same toLowercase column key.columnName then
    .error s!"column '{key.columnName}' is used by a FOREIGN KEY: it cannot be dropped"
  else
    .ok {
      column := renamed toLowercase renames key.columnName
      parent := key.referencedTable
      parentColumn := some key.referencedColumn
      onDelete := key.onDelete.code
      onUpdate := key.onUpdate.code }

def keptForeignKeys (found : Except TableError (List ForeignKeyConstraint)) (renames : List (String × String))
    (dropped : List String) : Except String (List ForeignKeyDef) :=
  match found with
  | .ok keys => keys.mapM (keptKey toLowercase renames dropped)
  | .error .tableNotFound => .ok []
  | .error (.other message) => .error message

end Kept

/-- A copying ALTER: the copy's name and definition, the foreign keys it adds,
and the columns it renames and drops. MariaDB's tables have columns, and its
keys have parts. -/
structure Alter where
  copy : String
  columns : List ColumnDef
  keys : List Key
  added : List ForeignKeyDef
  renames : List (String × String)
  dropped : List String
  some_ : columns ≠ []
  keysSome : ∀ key ∈ keys, key.kind = .unique → key.columns ≠ []

/-- What of a CREATE TABLE is the engine's own: how names are lowercased, the
column a key without one names, and the action it takes for none. -/
structure Reading where
  toLowercase : String → String
  primaryKey : String → String
  unnamed : ForeignKeyAction

namespace Reading

variable (reading : Reading)

/-- `stoolap_create_table` of a copy, from the keys of the table it is a copy
of. -/
def copyStatement (found : Except TableError (List ForeignKeyConstraint)) (alter : Alter) : Except String CreateTable := do
  let kept ← keptForeignKeys reading.toLowercase found alter.renames alter.dropped
  createStatement alter.copy alter.columns alter.keys (kept ++ alter.added) false

/-- The action a clause names; there is none that sets a default. -/
def actionOf : Option String → Option ForeignKeyAction
  | none => some reading.unnamed
  | some "RESTRICT" => some .restrict
  | some "CASCADE" => some .cascade
  | some "SET NULL" => some .setNull
  | some "NO ACTION" => some .noAction
  | some _ => none

def constraint (clause : ForeignKeyClause) : Option ForeignKeyConstraint := do
  return {
    columnName := clause.column
    referencedTable := clause.parent
    referencedColumn := clause.parentColumn.getD (reading.primaryKey clause.parent)
    onDelete := ← reading.actionOf clause.onDelete
    onUpdate := ← reading.actionOf clause.onUpdate }

/-- The engine makes a table with these foreign keys of the text. -/
def Creates (text : String) (keys : List ForeignKeyConstraint) : Prop :=
  ∃ statement, ReadsAs text (.createTable statement) ∧
    List.Forall₂ (fun clause key => reading.constraint clause = some key) statement.foreignKeys keys

/-- ALTERs one after the other, each over the copy the one before made. -/
inductive Altered : List ForeignKeyConstraint → List Alter → List ForeignKeyConstraint → Prop where
  | none (keys : List ForeignKeyConstraint) : Altered keys [] keys
  | alter {keys between last : List ForeignKeyConstraint} {alter : Alter} {others : List Alter} {statement : CreateTable}
      (copied : reading.copyStatement (.ok keys) alter = .ok statement) (creates : reading.Creates statement.sql between)
      (later : Altered between others last) : Altered keys (alter :: others) last

end Reading

/-- The key with its column as the ALTERs rename it. -/
def ForeignKeyConstraint.through (toLowercase : String → String) (alters : List Alter) (key : ForeignKeyConstraint) :
    ForeignKeyConstraint :=
  { key with columnName := alters.foldl (fun column alter => renamed toLowercase alter.renames column) key.columnName }

section Survival

variable {reading : Reading} {keys last : List ForeignKeyConstraint} {alter : Alter} {alters : List Alter}

theorem action_code (action_ : ForeignKeyAction) :
    ∃ words, action action_.code = .ok (some words) ∧ reading.actionOf (some words) = some action_ := by
  cases action_ with
  | restrict => exact ⟨"RESTRICT", rfl, rfl⟩
  | cascade => exact ⟨"CASCADE", rfl, rfl⟩
  | setNull => exact ⟨"SET NULL", rfl, rfl⟩
  | noAction => exact ⟨"NO ACTION", rfl, rfl⟩

theorem keptKey_ok {renames : List (String × String)} {dropped : List String} {key : ForeignKeyConstraint}
    {kept : ForeignKeyDef} : keptKey reading.toLowercase renames dropped key = .ok kept ↔
      (∀ column ∈ dropped, reading.toLowercase column ≠ reading.toLowercase key.columnName) ∧
        kept = {
          column := renamed reading.toLowercase renames key.columnName
          parent := key.referencedTable
          parentColumn := some key.referencedColumn
          onDelete := key.onDelete.code
          onUpdate := key.onUpdate.code } := by
  unfold keptKey
  split
  case isTrue drops =>
      obtain ⟨column, isDropped, isSame⟩ := List.any_eq_true.mp drops
      constructor
      · intro impossible
        cases impossible
      · intro others
        exact absurd (of_decide_eq_true isSame) (others.1 column isDropped)
  case isFalse keeps =>
      have others : ∀ column ∈ dropped, reading.toLowercase column ≠ reading.toLowercase key.columnName := by
        intro column isDropped isSame
        exact keeps (List.any_eq_true.mpr ⟨column, isDropped, decide_eq_true isSame⟩)
      rw [Except.ok.injEq, eq_comm]
      exact (and_iff_right others).symm

/-- A kept key comes back from its clause. -/
theorem kept_constraint {table : String} {renames : List (String × String)} {dropped : List String}
    {key : ForeignKeyConstraint} {kept : ForeignKeyDef} {clause : ForeignKeyClause}
    (isKept : keptKey reading.toLowercase renames dropped key = .ok kept) (made : foreignKey table kept = .ok clause) :
    reading.constraint clause =
      some { key with columnName := renamed reading.toLowercase renames key.columnName } := by
  obtain ⟨-, rfl⟩ := keptKey_ok.mp isKept
  obtain ⟨deleteWords, deletes, deleteAction⟩ := @action_code reading key.onDelete
  obtain ⟨updateWords, updates, updateAction⟩ := @action_code reading key.onUpdate
  unfold foreignKey at made
  split at made
  · cases made
  · simp only [ExceptList.bind_ok, ExceptList.pure_ok, deletes, updates, Except.ok.injEq] at made
    obtain ⟨_, rfl, _, rfl, rfl⟩ := made
    simp [Reading.constraint, deleteAction, updateAction]

/-- All of them, in front of what comes after. -/
theorem kept_constraints {table : String} {renames : List (String × String)} {dropped : List String}
    {kept more : List ForeignKeyDef} {clauses : List ForeignKeyClause}
    (areKept : keys.mapM (keptKey reading.toLowercase renames dropped) = .ok kept)
    (made : (kept ++ more).mapM (foreignKey table) = .ok clauses)
    (created : List.Forall₂ (fun clause key => reading.constraint clause = some key) clauses last) :
    ∃ added, last = keys.map (fun key =>
        { key with columnName := renamed reading.toLowercase renames key.columnName }) ++ added ∧
      added.length = more.length := by
  have isKept := ExceptList.mapM_ok.mp areKept
  clear areKept
  induction isKept generalizing clauses last with
  | nil =>
      refine ⟨last, rfl, ?_⟩
      rw [List.nil_append] at made
      rw [← created.length_eq, ExceptList.mapM_length made]
  | @cons key first keys kept here _ ih =>
      rw [List.cons_append, List.mapM_cons] at made
      simp only [ExceptList.bind_ok, ExceptList.pure_ok] at made
      obtain ⟨clause, isClause, clauses, others, rfl⟩ := made
      obtain ⟨constraint, constraints, isKey, later, rfl⟩ := List.forall₂_cons_left_iff.mp created
      obtain rfl := Option.some.inj ((kept_constraint here isClause).symm.trans isKey)
      obtain ⟨added, rfl, length⟩ := ih others later
      exact ⟨added, rfl, length⟩

theorem copy_formed {statement : CreateTable} (copied : reading.copyStatement (.ok keys) alter = .ok statement) :
    statement.Formed := by
  simp only [Reading.copyStatement, ExceptList.bind_ok] at copied
  obtain ⟨_, -, made⟩ := copied
  exact createStatement_formed alter.some_ alter.keysSome made

/-- The engine takes every copy's statement from its text. -/
theorem Reading.Altered.step {between : List ForeignKeyConstraint} {statement : CreateTable}
    (copied : reading.copyStatement (.ok keys) alter = .ok statement)
    (each : List.Forall₂ (fun clause key => reading.constraint clause = some key) statement.foreignKeys between)
    (later : reading.Altered between alters last) : reading.Altered keys (alter :: alters) last :=
  .alter copied ⟨statement, @statement_readsAs (.createTable statement) (copy_formed copied), each⟩ later

/-- What one copying ALTER leaves of the keys before it. -/
theorem copy_keeps {statement : CreateTable} (copied : reading.copyStatement (.ok keys) alter = .ok statement)
    (creates : reading.Creates statement.sql last) :
    (∀ key ∈ keys, ∀ column ∈ alter.dropped, reading.toLowercase column ≠ reading.toLowercase key.columnName) ∧
      ∃ added, last = keys.map (ForeignKeyConstraint.through reading.toLowercase [alter]) ++ added ∧
        added.length = alter.added.length := by
  obtain ⟨created, reads, constraints⟩ := creates
  have formed : (Statement.createTable statement).Formed := copy_formed copied
  cases (statement_readsAs formed).unique reads
  simp only [Reading.copyStatement, ExceptList.bind_ok, keptForeignKeys] at copied
  obtain ⟨kept, areKept, made⟩ := copied
  simp only [createStatement, ExceptList.bind_ok, ExceptList.pure_ok] at made
  obtain ⟨_, -, _, -, _, -, clauses, isClauses, rfl⟩ := made
  refine ⟨fun key member => ?_, kept_constraints areKept isClauses constraints⟩
  obtain ⟨_, -, isKept⟩ := ExceptList.mapM_source areKept member
  exact (keptKey_ok.mp isKept).1

theorem through_cons (key : ForeignKeyConstraint) : key.through reading.toLowercase (alter :: alters) =
    (key.through reading.toLowercase [alter]).through reading.toLowercase alters := rfl

/-- Over any run of copying ALTERs every foreign key stays, in its place, with
its column under the name they gave it, and no ALTER of the run drops a column
of one; only what they add comes after. -/
theorem foreign_keys_survive (altered : reading.Altered keys alters last) :
    (∃ added, last = keys.map (ForeignKeyConstraint.through reading.toLowercase alters) ++ added ∧
      added.length = (alters.flatMap Alter.added).length) ∧
    ∀ before alter after, alters = before ++ alter :: after → ∀ key ∈ keys, ∀ column ∈ alter.dropped,
      reading.toLowercase column ≠
        reading.toLowercase (key.through reading.toLowercase before).columnName := by
  induction altered with
  | none keys =>
      refine ⟨⟨[], ?_, rfl⟩, fun before alter after impossible => ?_⟩
      · rw [List.append_nil]
        exact (List.map_id keys).symm
      · cases before <;> cases impossible
  | @alter keys between last alter others statement copied creates _ ih =>
      obtain ⟨undropped, here, rfl, hereLength⟩ := copy_keeps copied creates
      obtain ⟨⟨added, rfl, length⟩, later⟩ := ih
      refine ⟨⟨here.map (ForeignKeyConstraint.through reading.toLowercase others) ++ added, ?_, ?_⟩, ?_⟩
      · rw [List.map_append, List.map_map, List.append_assoc]
        rfl
      · simp [hereLength, length]
      · intro before one after isRun key member column isDropped
        cases before with
        | nil =>
            cases isRun
            exact undropped key member column isDropped
        | cons first before =>
            obtain ⟨rfl, rfl⟩ := List.cons.inj isRun
            rw [through_cons]
            exact later before one after rfl _ (List.mem_append_left _ (List.mem_map_of_mem member)) column isDropped

/-- A key on a renamed column, through two ALTERs, the second adding one. -/
theorem foreign_keys_survive_sample :
    ∃ added, [⟨"C", "p", "id", .cascade, .restrict⟩, ⟨"a", "q", "id", .noAction, .noAction⟩] =
      [⟨"b", "p", "id", .cascade, .restrict⟩].map (ForeignKeyConstraint.through id
        [⟨"#sql-1", [⟨"a", 1, false, true⟩, ⟨"C", 1, true, false⟩], [], [], [("b", "C")], ["d"], by decide, by decide⟩,
          ⟨"#sql-2", [⟨"a", 1, false, true⟩, ⟨"C", 1, true, false⟩], [], [⟨"a", "q", none, 0, 2⟩], [], [], by decide,
            by decide⟩]) ++ added ∧ added.length = 1 := by
  refine (@foreign_keys_survive ⟨id, fun _ => "id", .noAction⟩ _ _ _
    (.step rfl ?_ (@Reading.Altered.step _ [⟨"C", "p", "id", .cascade, .restrict⟩] _ _ _ _ _ rfl ?_ (.none _)))).1
  · exact .cons rfl .nil
  · exact .cons rfl (.cons rfl .nil)

end Survival

end StoolapMariadb.Ddl
