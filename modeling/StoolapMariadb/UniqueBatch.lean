import StoolapMariadb.Unique

namespace StoolapMariadb.Write

/-! A batch checked at once against the same rows checked and inserted one
after another. -/

/-- No two new rows hold one key of a UNIQUE index, and none holds a stored
row's. -/
def KeysFree [Stoolap] (table : TableDef) (newRows : List Row) (rows : TxRows) : Prop :=
  Distinct table newRows ∧
    ∀ row ∈ newRows, ∀ stored ∈ rows, ∀ ids ∈ table.indexIds, shareKey ids row stored.row = false

/-- New rows, each under the id it takes, inserted in turn after `check_unique`
of every column. -/
def checkInTurn [Stoolap] (engine : Engine) (table : TableDef) (tableColumns : Nat) :
    List (Int64 × Row) → TxRows → Except Error Unit
  | [], _ => .ok ()
  | (id, row) :: added, rows =>
      match checkUnique engine table noRow row (List.range tableColumns) rows table.uniqueIndexes with
      | .error error => .error error
      | .ok () => checkInTurn engine table tableColumns added (rows ++ [{ id, row, pending := true }])

section Batch

variable [Stoolap] {engine : Engine} {table : TableDef} {rows : TxRows} {ids : List Nat}

theorem checkUnique_accepts {id : Int64} {row : Row} {changed : List Nat}
    {indexes : List (String × List String)} (reads : engine.fault .scan rows = none)
    (free : ∀ index ∈ indexes, ∀ ids, table.columnIds index.2 = some ids →
      ∀ stored ∈ rows, shareKey ids row stored.row = false) :
    checkUnique engine table id row changed rows indexes = .ok () := by
  induction indexes with
  | nil => rfl
  | cons head indexes ih =>
      obtain ⟨index, names⟩ := head
      have rest := ih fun other member => free other (List.mem_cons_of_mem _ member)
      cases resolved : table.columnIds names with
      | none => simp only [checkUnique, resolved, rest]
      | some ids =>
          simp only [checkUnique, resolved]
          split
          · exact rest
          · cases keys : keyOf ids row with
            | none => exact rest
            | some key =>
                have unheld : rows.find? (fun other => holdsKey ids key other.row && other.id ≠ id) = none := by
                  refine List.find?_eq_none.mpr fun stored storedIn => ?_
                  have apart := free (index, names) List.mem_cons_self ids resolved stored storedIn
                  simp only [shareKey, keys] at apart
                  simp [apart]
                simp only [unheld, reads, rest]

theorem seenKeys_accepts [LawfulStoolap] {newRows : List Row} (seen : List (List Scalar))
    (pairwise : newRows.Pairwise fun left right => shareKey ids left right = false)
    (apart : ∀ row ∈ newRows, ∀ key, keyOf ids row = some key → ∀ other ∈ seen, sameKey other key = false) :
    ∃ final, seenKeys ids newRows seen = .ok final ∧
      ∀ key ∈ final, key ∈ seen ∨ ∃ row ∈ newRows, keyOf ids row = some key := by
  induction newRows generalizing seen with
  | nil => exact ⟨seen, rfl, fun key member => .inl member⟩
  | cons row newRows ih =>
      obtain ⟨first, pairwise⟩ := List.pairwise_cons.mp pairwise
      cases keys : keyOf ids row with
      | none =>
          obtain ⟨final, collected, origin⟩ :=
            ih seen pairwise fun other member => apart other (List.mem_cons_of_mem _ member)
          refine ⟨final, by simp only [seenKeys, keys, collected], fun key member => ?_⟩
          rcases origin key member with among | ⟨other, otherIn, isKey⟩
          · exact .inl among
          · exact .inr ⟨other, List.mem_cons_of_mem _ otherIn, isKey⟩
      | some key =>
          have unseen : (seen.any fun other => sameKey other key) = false :=
            List.any_eq_false.mpr fun other member => by
              simpa using apart row List.mem_cons_self key keys other member
          obtain ⟨final, collected, origin⟩ := ih (key :: seen) pairwise (by
            intro other otherIn otherKey isKey earlier member
            rcases List.mem_cons.mp member with rfl | before
            · have free := first other otherIn
              simp only [shareKey, keys, holdsKey, isKey] at free
              rw [sameKey_comm]
              exact free
            · exact apart other (List.mem_cons_of_mem _ otherIn) otherKey isKey earlier before)
          refine ⟨final, by simp [seenKeys, keys, equalKeys_eq, unseen, collected], fun other member => ?_⟩
          rcases origin other member with among | ⟨later, laterIn, isKey⟩
          · rcases List.mem_cons.mp among with rfl | before
            · exact .inr ⟨row, List.mem_cons_self, keys⟩
            · exact .inl before
          · exact .inr ⟨later, List.mem_cons_of_mem _ laterIn, isKey⟩

theorem checkEach_accepts {newRows : List Row} (reads : engine.fault .scan rows = none)
    (free : ∀ row ∈ newRows, ∀ stored ∈ rows, ∀ ids ∈ table.indexIds, shareKey ids row stored.row = false) :
    checkEach engine table ids rows newRows = .ok () := by
  induction newRows with
  | nil => rfl
  | cons row newRows ih =>
      have first : checkUnique engine table noRow row ids rows table.uniqueIndexes = .ok () :=
        checkUnique_accepts reads fun index indexIn ids resolved stored storedIn =>
          free row List.mem_cons_self stored storedIn ids
            (mem_indexIds.mpr ⟨index.1, index.2, indexIn, resolved⟩)
      simp only [checkEach, first]
      exact ih fun other member => free other (List.mem_cons_of_mem _ member)

theorem checkUniqueBatch_accepts [LawfulStoolap] {newRows : List Row} {indexes : List (String × List String)}
    (reads : engine.fault .scan rows = none) (known : ∀ index ∈ indexes, index ∈ table.uniqueIndexes)
    (free : KeysFree table newRows rows) :
    checkUniqueBatch engine table newRows rows indexes = .ok () := by
  induction indexes with
  | nil => rfl
  | cons head indexes ih =>
      obtain ⟨index, names⟩ := head
      have rest := ih fun other member => known other (List.mem_cons_of_mem _ member)
      cases resolved : table.columnIds names with
      | none => simp only [checkUniqueBatch, resolved, rest]
      | some ids =>
          have indexed : ids ∈ table.indexIds :=
            mem_indexIds.mpr ⟨index, names, known _ List.mem_cons_self, resolved⟩
          obtain ⟨seen, collected, among⟩ :=
            seenKeys_accepts [] (free.1 ids indexed) fun _ _ _ _ _ member => by cases member
          simp only [checkUniqueBatch, resolved, collected]
          cases seen with
          | nil => exact rest
          | cons firstKey otherKeys =>
              dsimp only
              split
              · rename_i column
                have unheld : rows.find? (fun stored =>
                    (firstKey :: otherKeys).any fun key => holdsKey [column] key stored.row) = none := by
                  refine List.find?_eq_none.mpr fun stored storedIn held => ?_
                  obtain ⟨key, keyIn, holds⟩ := List.any_eq_true.mp held
                  rcases among key keyIn with before | ⟨row, rowIn, isKey⟩
                  · cases before
                  · have apart := free.2 row rowIn stored storedIn [column] indexed
                    simp only [shareKey, isKey, holds] at apart
                    cases apart
                simp only [unheld, reads, rest]
              · simp only [checkEach_accepts reads free.2, rest]

/-- The batch check lets exactly the free keys pass. -/
theorem checkUniqueBatch_iff [LawfulStoolap] (newRows : List Row) (reads : engine.fault .scan rows = none)
    (named : ∀ stored ∈ rows, stored.id ≠ noRow) :
    checkUniqueBatch engine table newRows rows table.uniqueIndexes = .ok () ↔ KeysFree table newRows rows := by
  refine ⟨fun accepted => ⟨fun ids member => ?_, fun row rowIn stored storedIn ids member => ?_⟩,
    checkUniqueBatch_accepts reads fun _ indexIn => indexIn⟩
  · obtain ⟨index, names, indexIn, resolved⟩ := mem_indexIds.mp member
    exact (checkUniqueBatch_ok (fun _ indexIn => indexIn) accepted indexIn resolved).1
  · obtain ⟨index, names, indexIn, resolved⟩ := mem_indexIds.mp member
    have only := (checkUniqueBatch_ok (fun _ indexIn => indexIn) accepted indexIn resolved).2
    by_contra shares
    exact named stored storedIn (only row rowIn stored storedIn (by simpa using shares)).2

/-- A new row passes its own check when it holds no stored row's key. -/
theorem checkUnique_iff {tableColumns : Nat} (row : Row) (columns : table.schema.columns.length = tableColumns)
    (reads : engine.fault .scan rows = none) (named : ∀ stored ∈ rows, stored.id ≠ noRow) :
    checkUnique engine table noRow row (List.range tableColumns) rows table.uniqueIndexes = .ok () ↔
      ∀ stored ∈ rows, ∀ ids ∈ table.indexIds, shareKey ids row stored.row = false := by
  constructor
  · intro accepted stored storedIn ids member
    obtain ⟨column, columnIn, bound⟩ := exists_indexed member
    exact checkUnique_apart accepted member ⟨column, columnIn, List.mem_range.mpr (columns ▸ bound)⟩ storedIn
      (named stored storedIn)
  · intro free
    refine checkUnique_accepts reads fun index indexIn ids resolved stored storedIn => ?_
    exact free stored storedIn ids (mem_indexIds.mpr ⟨index.1, index.2, indexIn, resolved⟩)

theorem keysFree_cons [LawfulStoolap] {row : Row} {newRows : List Row} (id : Int64) :
    KeysFree table (row :: newRows) rows ↔
      (∀ stored ∈ rows, ∀ ids ∈ table.indexIds, shareKey ids row stored.row = false) ∧
        KeysFree table newRows (rows ++ [{ id, row, pending := true }]) := by
  constructor
  · rintro ⟨distinct, apart⟩
    refine ⟨apart row List.mem_cons_self, fun ids member => (List.pairwise_cons.mp (distinct ids member)).2, ?_⟩
    intro other otherIn stored storedIn ids member
    rcases List.mem_append.mp storedIn with old | added
    · exact apart other (List.mem_cons_of_mem _ otherIn) stored old ids member
    · rw [List.mem_singleton.mp added, shareKey_comm]
      exact (List.pairwise_cons.mp (distinct ids member)).1 other otherIn
  · rintro ⟨first, distinct, apart⟩
    refine ⟨fun ids member => List.pairwise_cons.mpr ⟨fun other otherIn => ?_, distinct ids member⟩, ?_⟩
    · have free := apart other otherIn { id, row, pending := true } (by simp) ids member
      rw [shareKey_comm]
      exact free
    · intro other otherIn stored storedIn ids member
      rcases List.mem_cons.mp otherIn with rfl | later
      · exact first stored storedIn ids member
      · exact apart other later stored (List.mem_append_left _ storedIn) ids member

theorem checkInTurn_iff [LawfulStoolap] {tableColumns : Nat} {added : List (Int64 × Row)}
    (columns : table.schema.columns.length = tableColumns) (reads : ∀ rows, engine.fault .scan rows = none)
    (named : ∀ stored ∈ rows, stored.id ≠ noRow) (fresh : ∀ new ∈ added, new.1 ≠ noRow) :
    checkInTurn engine table tableColumns added rows = .ok () ↔
      KeysFree table (added.map Prod.snd) rows := by
  induction added generalizing rows with
  | nil =>
      refine iff_of_true rfl ⟨fun ids member => List.Pairwise.nil, fun row member => ?_⟩
      cases member
  | cons new added ih =>
      obtain ⟨id, row⟩ := new
      have namedNext : ∀ stored ∈ rows ++ [{ id, row, pending := true }], stored.id ≠ noRow := by
        intro stored storedIn
        rcases List.mem_append.mp storedIn with old | new
        · exact named stored old
        · rw [List.mem_singleton.mp new]
          exact fresh (id, row) List.mem_cons_self
      have rest := ih namedNext fun other member => fresh other (List.mem_cons_of_mem _ member)
      have first := checkUnique_iff row columns (reads rows) named
      rw [List.map_cons, keysFree_cons id, ← rest, ← first]
      simp only [checkInTurn]
      cases checkUnique engine table noRow row (List.range tableColumns) rows table.uniqueIndexes with
      | error error => simp
      | ok accepted => simp

end Batch

/-- A batch is accepted just when its rows would be one after another, and a
refused one writes nothing. -/
theorem batch_check_as_row_by_row [Stoolap] [LawfulStoolap] (engine : Engine) (table : TableDef)
    (tableColumns : Nat) (added : List (Int64 × Row)) (rows : TxRows)
    (checked : checkColumns table tableColumns = .ok ())
    (reads : ∀ rows, engine.fault .scan rows = none)
    (named : ∀ stored ∈ rows, stored.id ≠ noRow) (fresh : ∀ new ∈ added, new.1 ≠ noRow) :
    (checkUniqueBatch engine table (added.map Prod.snd) rows table.uniqueIndexes = .ok () ↔
        checkInTurn engine table tableColumns added rows = .ok ()) ∧
      (checkUniqueBatch engine table (added.map Prod.snd) rows table.uniqueIndexes = .ok () ↔
        KeysFree table (added.map Prod.snd) rows) ∧
      ∀ error, checkUniqueBatch engine table (added.map Prod.snd) rows table.uniqueIndexes = .error error →
        1 < added.length → insert engine table tableColumns (added.map Prod.snd) rows = (.error error, rows) := by
  have batch : checkUniqueBatch engine table (added.map Prod.snd) rows table.uniqueIndexes = .ok () ↔ _ :=
    checkUniqueBatch_iff (added.map Prod.snd) (reads rows) named
  have turns := checkInTurn_iff (checkColumns_ok checked) reads named fresh
  refine ⟨batch.trans turns.symm, batch, fun error refused several => ?_⟩
  have indexed : table.uniqueIndexes.isEmpty = false := by
    cases indexes : table.uniqueIndexes with
    | nil => simp [indexes, checkUniqueBatch] at refused
    | cons index others => rfl
  simp only [insert, checked, indexed, Bool.not_false, Bool.true_and, List.length_map, several, decide_true,
    if_true, refused]

/-- Two rows of one key are refused both ways, before a stored row of another. -/
theorem batch_check_as_row_by_row_twice :
    @checkUniqueBatch Stoolap.reference willing uniqueTable [newRow 1 7, newRow 2 7] [⟨3, newRow 3 8, false⟩]
        uniqueTable.uniqueIndexes ≠ .ok () ∧
      @checkInTurn Stoolap.reference willing uniqueTable 2 [(1, newRow 1 7), (2, newRow 2 7)]
        [⟨3, newRow 3 8, false⟩] ≠ .ok () := by
  let _ := Stoolap.reference
  have _ := Stoolap.reference_lawful
  have agree := batch_check_as_row_by_row willing uniqueTable 2 [(1, newRow 1 7), (2, newRow 2 7)]
    [⟨3, newRow 3 8, false⟩] rfl (fun _ => rfl) (by decide) (by decide)
  have refused : ¬ checkUniqueBatch willing uniqueTable [newRow 1 7, newRow 2 7] [⟨3, newRow 3 8, false⟩]
      uniqueTable.uniqueIndexes = .ok () := by decide
  exact ⟨refused, fun accepted => refused (agree.1.mpr accepted)⟩

end StoolapMariadb.Write
