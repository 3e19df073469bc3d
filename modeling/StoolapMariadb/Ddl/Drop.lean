import StoolapMariadb.Value
import Mathlib.Data.List.Basic

namespace StoolapMariadb.Ddl

/-! DROP TABLE over the engine's catalog: its tables, by their lowercased
names, with the foreign keys the plugin gave them. -/

/-- A foreign key as the engine keeps it with the table it is a column of. -/
structure ForeignKey where
  columnName : String
  referencedTable : String
  referencedColumn : String
deriving DecidableEq

structure Table where
  name : String
  schema : Schema
  foreignKeys : List ForeignKey
  rows : List Row

inductive Error where
  | foreignKeyViolation (table column referencedTable referencedColumn detail : String)
  | engine (message : String)
deriving DecidableEq

def Table.names (table : Table) (parent : String) : Prop :=
  ∃ key ∈ table.foreignKeys, key.referencedTable = parent

/-- A row holds a key on `parent`: it has a value in the column. -/
def Table.rowReferences (table : Table) (parent : String) : Bool :=
  table.foreignKeys.any fun key =>
    key.referencedTable = parent &&
      match table.schema.columns.findIdx? fun column => column.name = key.columnName with
      | none => false
      | some column => table.rows.any fun row => (row.value column).isSome

/-- What of this is the engine's own: the lowercasing of names it shares with
the plugin, its list of the foreign keys on a table, in an order of its own,
and the drops it refuses. -/
structure Engine where
  toLowercase : String → String
  findReferencingFks : List Table → String → List (String × ForeignKey)
  dropFault : List Table → String → Option Error

/-- The engine lists just the keys on a table. -/
structure Engine.Lawful (engine : Engine) : Prop where
  finds : ∀ tables parent child key, (child, key) ∈ engine.findReferencingFks tables parent ↔
    ∃ table ∈ tables, table.name = child ∧ key ∈ table.foreignKeys ∧ key.referencedTable = parent

structure Catalog (engine : Engine) where
  tables : List Table
  lowercase : ∀ table ∈ tables, engine.toLowercase table.name = table.name

variable {engine : Engine}

def Catalog.remove (name : String) (catalog : Catalog engine) : Catalog engine where
  tables := catalog.tables.filter fun table => table.name ≠ name
  lowercase := fun table member => catalog.lowercase table (List.mem_of_mem_filter member)

/-- `DROP TABLE IF EXISTS`. -/
def Catalog.dropTableIfExists (name : String) (catalog : Catalog engine) :
    Except Error Unit × Catalog engine :=
  match engine.dropFault catalog.tables (engine.toLowercase name) with
  | some error => (.error error, catalog)
  | none => (.ok (), catalog.remove (engine.toLowercase name))

def Catalog.referencingTables (parent : String) (catalog : Catalog engine) :
    List (String × String × String) :=
  let parent := engine.toLowercase parent
  ((engine.findReferencingFks catalog.tables parent).filter fun (child, _) => child ≠ parent).map
    fun (child, key) => (child, key.columnName, key.referencedColumn)

/-- The loop of `drop_table`. An error leaves the children dropped before
it. -/
def dropChildren (table : String) (checkFks : Bool) (dropping : List String) :
    List (String × String × String) → Catalog engine → Except Error Unit × Catalog engine
  | [], catalog => (.ok (), catalog)
  | (child, column, parentColumn) :: children, catalog =>
      if dropping.contains child then
        match catalog.dropTableIfExists child with
        | (.error error, catalog) => (.error error, catalog)
        | (.ok (), catalog) => dropChildren table checkFks dropping children catalog
      else if checkFks then
        (.error (.foreignKeyViolation child column table parentColumn
          s!"cannot drop table '{table}': still referenced by table '{child}'"), catalog)
      else dropChildren table checkFks dropping children catalog

/-- `ddl::drop_table`. -/
def dropTable (table : String) (checkFks : Bool) (dropping : List String) (catalog : Catalog engine) :
    Except Error Unit × Catalog engine :=
  let dropping := dropping.map engine.toLowercase
  match dropChildren table checkFks dropping (catalog.referencingTables table) catalog with
  | (.error error, catalog) => (.error error, catalog)
  | (.ok (), catalog) => catalog.dropTableIfExists table

/-- A table that is left, and that the statement does not drop, has a foreign
key on a table that is gone. -/
def Dangles (dropping : List String) (before after : Catalog engine) : Prop :=
  ∃ table ∈ after.tables, table.name ∉ dropping.map engine.toLowercase ∧
    ∃ gone ∈ before.tables, table.names gone.name ∧ ∀ left ∈ after.tables, left.name ≠ gone.name

/-- An engine to compute with: names in ASCII, children in the order of the
catalog, a drop refused when a row of another table is left without its
parent. -/
def Engine.reference : Engine where
  toLowercase name := String.ofList (name.toList.map Char.toLower)
  findReferencingFks tables parent := tables.flatMap fun table =>
    (table.foreignKeys.filter fun key => key.referencedTable = parent).map fun key => (table.name, key)
  dropFault tables name :=
    if tables.any fun table => table.name ≠ name && table.rowReferences name then
      some (.engine s!"cannot drop table '{name}': referenced by rows of another table")
    else none

variable {name child : String} {dropping : List String} {catalog after : Catalog engine}

@[simp] theorem Catalog.mem_remove {table : Table} :
    table ∈ (catalog.remove name).tables ↔ table ∈ catalog.tables ∧ table.name ≠ name := by
  simp only [Catalog.remove, List.mem_filter, decide_eq_true_eq]

theorem Catalog.dropTableIfExists_ok
    (dropped : catalog.dropTableIfExists name = (.ok (), after)) :
    after = catalog.remove (engine.toLowercase name) := by
  simp only [Catalog.dropTableIfExists] at dropped
  split at dropped
  · cases dropped
  · cases dropped
    rfl

theorem Catalog.mem_referencingTables (lawful : engine.Lawful) :
    child ∈ (catalog.referencingTables name).map Prod.fst ↔
      child ≠ engine.toLowercase name ∧
        ∃ table ∈ catalog.tables, table.name = child ∧ table.names (engine.toLowercase name) := by
  simp only [Catalog.referencingTables, List.map_map, List.mem_map, List.mem_filter, decide_eq_true_eq]
  constructor
  · rintro ⟨⟨found, key⟩, ⟨listed, other⟩, rfl⟩
    obtain ⟨table, member, named, held, references⟩ := (lawful.finds ..).mp listed
    exact ⟨other, table, member, named, key, held, references⟩
  · rintro ⟨other, table, member, named, key, held, references⟩
    exact ⟨(child, key), ⟨(lawful.finds ..).mpr ⟨table, member, named, held, references⟩, other⟩, rfl⟩

theorem Catalog.referencingTables_lowercase (lawful : engine.Lawful) (catalog : Catalog engine) :
    ∀ child ∈ (catalog.referencingTables name).map Prod.fst, engine.toLowercase child = child := by
  intro child member
  obtain ⟨_, table, found, rfl, _⟩ := (Catalog.mem_referencingTables lawful).mp member
  exact catalog.lowercase table found

theorem Engine.reference_lawful : Engine.reference.Lawful where
  finds tables parent child key := by
    simp only [Engine.reference, List.mem_flatMap, List.mem_map, List.mem_filter, decide_eq_true_eq]
    constructor
    · rintro ⟨table, member, _, ⟨held, references⟩, ⟨⟩⟩
      exact ⟨table, member, rfl, held, references⟩
    · rintro ⟨table, member, rfl, held, references⟩
      exact ⟨table, member, key, ⟨held, references⟩, rfl⟩

/-- With the checks on, the loop ends well only over children that are being
dropped, and it leaves the other tables. -/
theorem dropChildren_ok {table : String} {children : List (String × String × String)}
    (lowercase : ∀ child ∈ children.map Prod.fst, engine.toLowercase child = child)
    (ran : dropChildren table true dropping children catalog = (.ok (), after)) :
    (∀ child ∈ children.map Prod.fst, child ∈ dropping) ∧
      ∀ left, left ∈ after.tables ↔ left ∈ catalog.tables ∧ left.name ∉ children.map Prod.fst := by
  induction children generalizing catalog with
  | nil =>
      cases ran
      simp
  | cons first children ih =>
      obtain ⟨child, column, parentColumn⟩ := first
      simp only [dropChildren] at ran
      split at ran
      · rename_i among
        split at ran
        · cases ran
        · rename_i next dropped
          obtain ⟨all, left⟩ := ih (fun other member => lowercase other (List.mem_cons_of_mem _ member)) ran
          have removed := Catalog.dropTableIfExists_ok dropped
          rw [lowercase child List.mem_cons_self] at removed
          refine ⟨?_, ?_⟩
          · intro other member
            rcases List.mem_cons.mp member with rfl | member
            · exact List.contains_iff_mem.mp among
            · exact all other member
          · intro other
            rw [left other, removed, Catalog.mem_remove, List.map_cons, List.mem_cons, not_or, and_assoc]
      · cases ran

/-- What a drop that succeeds takes away: the table, and its children, all of
them among those being dropped. -/
theorem dropTable_ok (lawful : engine.Lawful)
    (dropped : dropTable name true dropping catalog = (.ok (), after)) :
    (∀ child ∈ (catalog.referencingTables name).map Prod.fst, child ∈ dropping.map engine.toLowercase) ∧
      ∀ left, left ∈ after.tables ↔ left ∈ catalog.tables ∧ left.name ≠ engine.toLowercase name ∧
        left.name ∉ (catalog.referencingTables name).map Prod.fst := by
  simp only [dropTable] at dropped
  split at dropped
  · cases dropped
  · rename_i middle looped
    obtain ⟨all, left⟩ := dropChildren_ok (catalog.referencingTables_lowercase lawful) looped
    refine ⟨all, ?_⟩
    intro other
    rw [Catalog.dropTableIfExists_ok dropped, Catalog.mem_remove, left other, and_assoc,
      and_comm (a := other.name ∉ _)]

/-- The children dropped with a table have foreign keys on them checked by no
one: a table that stays dangles exactly when it has one. -/
theorem drop_table_dangles_iff (lawful : engine.Lawful)
    (dropped : dropTable name true dropping catalog = (.ok (), after)) :
    ¬ Dangles dropping catalog after ↔
      ∀ child ∈ catalog.tables, child.name ∈ dropping.map engine.toLowercase →
        child.name ≠ engine.toLowercase name → child.names (engine.toLowercase name) →
        ∀ table ∈ catalog.tables, table.name ∉ dropping.map engine.toLowercase →
          table.name ≠ engine.toLowercase name → ¬ table.names child.name := by
  obtain ⟨all, left⟩ := dropTable_ok lawful dropped
  constructor
  · intro sound child found among other onTable table member outside notTable onChild
    apply sound
    have listed : child.name ∈ (catalog.referencingTables name).map Prod.fst :=
      (Catalog.mem_referencingTables lawful).mpr ⟨other, child, found, rfl, onTable⟩
    refine ⟨table, (left table).mpr ⟨member, notTable, ?_⟩, outside, child, found, onChild, ?_⟩
    · exact fun among => outside (all _ among)
    · intro remaining stays same
      rw [left, same] at stays
      exact stays.2.2 listed
  · rintro closed ⟨table, stays, outside, gone, found, onGone, absent⟩
    obtain ⟨member, notTable, notChild⟩ := (left table).mp stays
    have taken : gone.name = engine.toLowercase name ∨
        gone.name ∈ (catalog.referencingTables name).map Prod.fst := by
      rw [or_iff_not_and_not]
      exact fun stays => absent gone ((left gone).mpr ⟨found, stays⟩) rfl
    rcases taken with same | child
    · -- The table itself: whoever names it is a child, so it is not left.
      rw [same] at onGone
      exact notChild ((Catalog.mem_referencingTables lawful).mpr ⟨notTable, table, member, rfl, onGone⟩)
    · obtain ⟨other, parent, present, named, onTable⟩ := (Catalog.mem_referencingTables lawful).mp child
      rw [← named] at other child onGone
      exact closed parent present (all _ child) other onTable table member outside notTable onGone

/-- A database with a parent and its child, and a table of another database
with a key on that child and no rows. -/
def familyCatalog : Catalog Engine.reference where
  tables :=
    [{ name := "d_1a", schema := { columns := [⟨"id", .integer⟩], pkColumn := some 0 },
       foreignKeys := [], rows := [[some (.integer 1)]] },
     { name := "d_1b", schema := { columns := [⟨"id", .integer⟩, ⟨"aid", .integer⟩], pkColumn := some 0 },
       foreignKeys := [⟨"aid", "d_1a", "id"⟩], rows := [[some (.integer 1), some (.integer 1)]] },
     { name := "e_1x", schema := { columns := [⟨"id", .integer⟩, ⟨"bid", .integer⟩], pkColumn := some 0 },
       foreignKeys := [⟨"bid", "d_1b", "id"⟩], rows := [] }]
  lowercase := by decide

theorem drop_table_dangles_iff_family :
    (dropTable "d_1a" true ["d_1a", "d_1b"] familyCatalog).1 = .ok () ∧
      (¬ Dangles ["d_1a", "d_1b"] familyCatalog (dropTable "d_1a" true ["d_1a", "d_1b"] familyCatalog).2 ↔
        ∀ child ∈ familyCatalog.tables, child.name ∈ ["d_1a", "d_1b"] →
          child.name ≠ "d_1a" → child.names "d_1a" →
          ∀ table ∈ familyCatalog.tables, table.name ∉ ["d_1a", "d_1b"] →
            table.name ≠ "d_1a" → ¬ table.names child.name) :=
  ⟨rfl, @drop_table_dangles_iff Engine.reference "d_1a" ["d_1a", "d_1b"] familyCatalog _
    Engine.reference_lawful rfl⟩

/-- DROP DATABASE takes the child along, checked by no one, and leaves a key
on it in the other database. -/
theorem drop_table_leaves_grandchild :
    (dropTable "d_1a" true ["d_1a", "d_1b"] familyCatalog).1 = .ok () ∧
      Dangles ["d_1a", "d_1b"] familyCatalog (dropTable "d_1a" true ["d_1a", "d_1b"] familyCatalog).2 := by
  refine ⟨rfl, _, List.mem_singleton.mpr rfl, by decide, _, List.mem_cons_of_mem _ List.mem_cons_self, ?_, ?_⟩
  · exact ⟨_, List.mem_singleton.mpr rfl, rfl⟩
  · decide

/-- The loop only ever takes tables away. -/
theorem dropChildren_subset {table : String} {checkFks : Bool} {children : List (String × String × String)}
    {result : Except Error Unit} (ran : dropChildren table checkFks dropping children catalog = (result, after)) :
    ∀ left ∈ after.tables, left ∈ catalog.tables := by
  induction children generalizing catalog with
  | nil =>
      cases ran
      exact fun left stays => stays
  | cons first children ih =>
      obtain ⟨child, column, parentColumn⟩ := first
      rw [dropChildren] at ran
      split at ran
      · cases dropped : catalog.dropTableIfExists child with
        | mk outcome next =>
            rw [dropped] at ran
            cases outcome with
            | error error =>
                cases ran
                simp only [Catalog.dropTableIfExists] at dropped
                split at dropped
                · cases dropped
                  exact fun left stays => stays
                · cases dropped
            | ok =>
                intro left stays
                have kept := ih ran left stays
                rw [Catalog.dropTableIfExists_ok dropped, Catalog.mem_remove] at kept
                exact kept.1
      · split at ran
        · cases ran
          exact fun left stays => stays
        · exact ih ran

/-- Every table is there still, with its rows. -/
def KeepsTables (before after : Catalog engine) : Prop :=
  ∀ table ∈ before.tables, table ∈ after.tables

/-- A drop refused over a foreign key keeps every table just when the first
child the engine lists is not being dropped: one that is has gone by then. -/
theorem refused_drop_keeps_tables_iff (lawful : engine.Lawful)
    (faults : ∀ tables name error, engine.dropFault tables name = some error → ∃ message, error = .engine message)
    {column table parentColumn detail : String}
    (refused : dropTable name true dropping catalog =
      (.error (.foreignKeyViolation child column table parentColumn detail), after)) :
    KeepsTables catalog after ↔
      ∃ first ∈ (catalog.referencingTables name).head?, first.1 ∉ dropping.map engine.toLowercase := by
  have listed := fun child => (@Catalog.mem_referencingTables engine name child catalog lawful).mp
  have lowercase := @Catalog.referencingTables_lowercase engine name lawful catalog
  have looped : dropChildren name true (dropping.map engine.toLowercase) (catalog.referencingTables name) catalog =
      (.error (.foreignKeyViolation child column table parentColumn detail), after) := by
    rw [dropTable] at refused
    split at refused
    · rename_i error middle ran
      rw [ran, refused]
    · rename_i middle ran
      rw [Catalog.dropTableIfExists] at refused
      split at refused
      · rename_i error fault
        obtain ⟨message, rfl⟩ := faults _ _ _ fault
        cases refused
      · cases refused
  revert looped listed lowercase
  cases catalog.referencingTables name with
  | nil =>
      intro _ _ looped
      cases looped
  | cons first children =>
      intro listed lowercase looped
      obtain ⟨childName, childColumn, childParent⟩ := first
      simp only [List.head?_cons, Option.mem_some_iff, exists_eq_left']
      rw [dropChildren] at looped
      split at looped
      · rename_i among
        refine iff_of_false (fun keeps => ?_) (not_not_intro (List.contains_iff_mem.mp among))
        cases dropped : catalog.dropTableIfExists childName with
        | mk outcome next =>
            rw [dropped] at looped
            cases outcome with
            | error error =>
                simp only [Catalog.dropTableIfExists] at dropped
                split at dropped
                · rename_i fault
                  obtain ⟨message, rfl⟩ := faults _ _ _ fault
                  cases dropped
                  cases looped
                · cases dropped
            | ok =>
                obtain ⟨-, gone, goneIn, named, -⟩ := listed childName List.mem_cons_self
                have left := dropChildren_subset looped gone (keeps gone goneIn)
                rw [Catalog.dropTableIfExists_ok dropped, lowercase childName List.mem_cons_self,
                  Catalog.mem_remove] at left
                exact left.2 named
      · rename_i outside
        rw [if_pos rfl] at looped
        cases looped
        exact iff_of_true (fun table stays => stays) fun among => outside (List.contains_iff_mem.mpr among)

/-- A parent with a child of its own database and one of another. -/
def sharedCatalog : Catalog Engine.reference where
  tables :=
    [{ name := "d_1a", schema := { columns := [⟨"id", .integer⟩], pkColumn := some 0 },
       foreignKeys := [], rows := [] },
     { name := "d_1b", schema := { columns := [⟨"id", .integer⟩, ⟨"aid", .integer⟩], pkColumn := some 0 },
       foreignKeys := [⟨"aid", "d_1a", "id"⟩], rows := [] },
     { name := "e_1x", schema := { columns := [⟨"id", .integer⟩, ⟨"aid", .integer⟩], pkColumn := some 0 },
       foreignKeys := [⟨"aid", "d_1a", "id"⟩], rows := [] }]
  lowercase := by decide

theorem refused_drop_keeps_tables_iff_shared :
    KeepsTables sharedCatalog (dropTable "d_1a" true ["d_1a"] sharedCatalog).2 ↔
      ∃ first ∈ (sharedCatalog.referencingTables "d_1a").head?, first.1 ∉ ["d_1a"] :=
  @refused_drop_keeps_tables_iff Engine.reference "d_1a" "d_1b" ["d_1a"] sharedCatalog _
    Engine.reference_lawful
    (fun tables name error fault => by
      simp only [Engine.reference] at fault
      split at fault
      · exact ⟨_, (Option.some.inj fault).symm⟩
      · cases fault)
    "aid" "d_1a" "id" _ rfl

/-- DROP DATABASE: the child of its own goes first, then the other one refuses
the drop. -/
theorem refused_drop_loses_child :
    (dropTable "d_1a" true ["d_1a", "d_1b"] sharedCatalog).1 =
        .error (.foreignKeyViolation "e_1x" "aid" "d_1a" "id"
          "cannot drop table 'd_1a': still referenced by table 'e_1x'") ∧
      ¬ KeepsTables sharedCatalog (dropTable "d_1a" true ["d_1a", "d_1b"] sharedCatalog).2 := by
  refine ⟨rfl, fun keeps => ?_⟩
  have still := keeps _ (List.mem_cons_of_mem _ List.mem_cons_self)
  have names : (dropTable "d_1a" true ["d_1a", "d_1b"] sharedCatalog).2.tables.map Table.name =
      ["d_1a", "e_1x"] := by decide
  have named := @List.mem_map_of_mem _ _ _ _ Table.name still
  rw [names] at named
  revert named
  decide

end StoolapMariadb.Ddl
