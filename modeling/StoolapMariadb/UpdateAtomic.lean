import StoolapMariadb.Unique
import Mathlib.Logic.Function.Basic

namespace StoolapMariadb.Write

/-! An update of one row against a map from row ids to rows: all of it or
nothing. -/

/-- The row the transaction sees under an id. -/
def rowAt (rows : TxRows) (id : Int64) : Option Row :=
  (rows.find? fun stored => stored.id = id).map StoredRow.row

/-- Row `id` set to `new` under `newId`: the named columns as given, the
others as they were, and no other row touched. -/
structure Moved (table : TableDef) (id : Int64) (columns : List Nat) (values : List Value)
    (old new : Row) (newId : Int64) (rows after : TxRows) : Prop where
  was : rowAt rows id = some old
  set : setColumns old (columns.zip values) = .ok new
  frame : ∀ column, column ∉ columns → new.value column = old.value column
  primary : ∀ pk, table.schema.pkColumn = some pk → new.value pk = some (.integer newId)
  stays : (∀ pk, table.schema.pkColumn = some pk → pk ∉ columns) → newId = id
  fresh : newId ≠ id → rowAt rows newId = none
  now : rowAt after = Function.update (Function.update (rowAt rows) id none) newId (some new)

/-- What an update may return, and the rows it then leaves. -/
def UpdateOutcome (table : TableDef) (id : Int64) (columns : List Nat) (values : List Value)
    (rows : TxRows) : Except Error Int64 × TxRows → Prop
  | (.error _, after) => rowAt after = rowAt rows
  | (.ok count, after) =>
      (count = 0 ∧ rowAt rows id = none ∧ rowAt after = rowAt rows) ∨
        (count = 1 ∧ ∃ old new newId, Moved table id columns values old new newId rows after)

section Update

variable {table : TableDef} {rows : TxRows} {id : Int64} {columns : List Nat} {values : List Value}

theorem rowAt_filter : rowAt (rows.filter fun stored => stored.id ≠ id) = Function.update (rowAt rows) id none := by
  funext other
  simp only [rowAt, List.find?_filter, Function.update_apply]
  by_cases same : other = id
  · subst same
    rw [if_pos rfl, Option.map_eq_none_iff, List.find?_eq_none]
    simp
  · rw [if_neg same]
    congr 2
    funext stored
    by_cases isOther : stored.id = other
    · simp [isOther, same]
    · simp [isOther]

theorem rowAt_append {new : StoredRow} (fresh : ∀ stored ∈ rows, stored.id ≠ new.id) :
    rowAt (rows ++ [new]) = Function.update (rowAt rows) new.id (some new.row) := by
  funext other
  simp only [rowAt, List.find?_append, Function.update_apply]
  by_cases same : other = new.id
  · subst same
    have unfound : (rows.find? fun stored => stored.id = new.id) = none :=
      List.find?_eq_none.mpr fun stored storedIn => by simpa using fresh stored storedIn
    simp [unfound]
  · have unfound : ([new].find? fun stored => stored.id = other) = none := by
      simp [Ne.symm same]
    rw [unfound, Option.or_none, if_neg same]

theorem rowAt_replace {old row : Row} (found : rowAt rows id = some old) :
    rowAt (rows.map fun other => if other.id = id then { id, row, pending := true } else other) =
      Function.update (rowAt rows) id (some row) := by
  funext target
  have ids : ((fun stored : StoredRow => decide (stored.id = target)) ∘
      fun other => if other.id = id then { id, row, pending := true } else other) =
      fun stored => decide (stored.id = target) := by
    funext stored
    by_cases isOld : stored.id = id <;> simp [isOld]
  simp only [rowAt, List.find?_map, ids, Function.update_apply, Option.map_map]
  by_cases same : target = id
  · subst same
    obtain ⟨stored, isStored, -⟩ := Option.map_eq_some_iff.mp found
    have isId : stored.id = target := by simpa using List.find?_some isStored
    simp [isStored, isId]
  · rw [if_neg same]
    refine Option.map_congr fun stored isStored => ?_
    have isTarget : stored.id = target := by simpa using List.find?_some isStored
    simp [isTarget, same]

theorem rowAt_eq_none (absent : ∀ stored ∈ rows, stored.id ≠ id) : rowAt rows id = none := by
  rw [rowAt, Option.map_eq_none_iff, List.find?_eq_none]
  simpa using absent

theorem fetchRow_none {engine : Engine} (fetched : fetchRow engine id rows = .ok none) : rowAt rows id = none := by
  unfold fetchRow at fetched
  split at fetched
  · cases fetched
  · rw [rowAt, Except.ok.inj fetched]
    rfl

theorem fetchRow_some {engine : Engine} {old : StoredRow} (fetched : fetchRow engine id rows = .ok (some old)) :
    rowAt rows id = some old.row := by
  unfold fetchRow at fetched
  split at fetched
  · cases fetched
  · rw [rowAt, Except.ok.inj fetched]
    rfl

theorem setColumns_frame {old new : Row} (set : setColumns old (columns.zip values) = .ok new) {column : Nat}
    (unnamed : column ∉ columns) : new.value column = old.value column :=
  setColumns_value set fun _ assigned same => unnamed (same ▸ (List.of_mem_zip assigned).1)

/-- The engine's update of the one row named. -/
theorem updateByRowId_outcome {engine : Engine}
    (primary : ∀ pk, table.schema.pkColumn = some pk →
      ∀ stored ∈ rows, stored.row.value pk = some (.integer stored.id))
    (unset : ∀ pk, table.schema.pkColumn = some pk → pk ∉ columns) :
    UpdateOutcome table id columns values rows
      (updateByRowId engine id (fun row => setColumns row (columns.zip values)) rows) := by
  unfold updateByRowId
  split
  · exact rfl
  · split
    · rename_i gone
      exact .inl ⟨rfl, by rw [rowAt, gone]; rfl, rfl⟩
    · rename_i stored found
      have isId : stored.id = id := by simpa using List.find?_some found
      split
      · exact rfl
      · rename_i row set
        have was : rowAt rows id = some stored.row := by rw [rowAt, found]; rfl
        refine .inr ⟨rfl, stored.row, row, id, was, set, fun column => setColumns_frame set, ?_,
          fun _ => rfl, fun moved => absurd rfl moved, ?_⟩
        · intro pk isPk
          rw [setColumns_frame set (unset pk isPk), ← isId]
          exact primary pk isPk stored (List.mem_of_find?_eq_some found)
        · rw [Function.update_idem]
          exact rowAt_replace was

theorem updateInPlace_outcome [Stoolap] {engine : Engine}
    (primary : ∀ pk, table.schema.pkColumn = some pk →
      ∀ stored ∈ rows, stored.row.value pk = some (.integer stored.id))
    (unset : ∀ pk, table.schema.pkColumn = some pk → pk ∉ columns) :
    UpdateOutcome table id columns values rows (updateInPlace engine table id columns values rows) := by
  unfold updateInPlace
  dsimp only
  split
  · exact updateByRowId_outcome primary unset
  · split
    · exact rfl
    · rename_i gone
      exact .inl ⟨rfl, fetchRow_none gone, rfl⟩
    · split
      · exact rfl
      · split
        · exact rfl
        · exact updateByRowId_outcome primary unset

theorem deleteByRowId_ok {engine : Engine} {count : Int64} {left : TxRows}
    (deleted : deleteByRowId engine id rows = (.ok count, left)) :
    left = rows.filter fun stored => stored.id ≠ id := by
  unfold deleteByRowId at deleted
  split at deleted
  · cases deleted
  · exact (Prod.mk.inj deleted).2.symm

/-- A row that moves: its new state goes in, or the old one back. -/
theorem updateMove_outcome [Stoolap] {engine : Engine} {pk : Nat} (isPk : table.schema.pkColumn = some pk)
    (assigned : pk ∈ columns)
    (primary : ∀ stored ∈ rows, stored.row.value pk = some (.integer stored.id))
    (restores : ∀ old ∈ rows, old.id = id →
      ∃ after, insertDiscard engine table old.row (rows.filter fun stored => stored.id ≠ id) = .ok after) :
    UpdateOutcome table id columns values rows (updateMove engine table id columns values rows) := by
  have others (newId : Int64) (row : Row)
      (fresh : ∀ stored ∈ rows.filter fun stored => stored.id ≠ id, stored.id ≠ newId) :
      rowAt ((rows.filter fun stored => stored.id ≠ id) ++ [{ id := newId, row, pending := true }]) =
        Function.update (Function.update (rowAt rows) id none) newId (some row) := by
    rw [rowAt_append fresh, rowAt_filter]
  unfold updateMove
  split
  · exact rfl
  · rename_i gone
    exact .inl ⟨rfl, fetchRow_none gone, rfl⟩
  · rename_i old fetched
    obtain ⟨oldIn, oldId⟩ := fetchRow_ok fetched
    have was := fetchRow_some fetched
    split
    · exact rfl
    · rename_i row set
      dsimp only
      split
      · exact rfl
      · cases deleted : deleteByRowId engine id rows with
        | mk result left =>
            cases result with
            | error error =>
                unfold deleteByRowId at deleted
                split at deleted
                · obtain ⟨-, rfl⟩ := Prod.mk.inj deleted
                  exact rfl
                · cases deleted
            | ok count =>
                obtain rfl := deleteByRowId_ok deleted
                dsimp only
                split
                · rename_i after inserted
                  obtain ⟨newId, rfl, fresh, -, newPrimary⟩ := insertDiscard_ok inserted
                  refine .inr ⟨rfl, old.row, row, newId, was, set, fun column => setColumns_frame set,
                    newPrimary, fun unset => absurd assigned (unset pk isPk), fun moved => ?_,
                    others newId row fresh⟩
                  have free := rowAt_eq_none fresh
                  rwa [rowAt_filter, Function.update_of_ne moved] at free
                · obtain ⟨after, restored⟩ := restores old oldIn oldId
                  rw [restored]
                  obtain ⟨oldKey, rfl, fresh, -, oldPrimary⟩ := insertDiscard_ok restored
                  have back : oldKey = id := by
                    have keys := (oldPrimary pk isPk).symm.trans (primary old oldIn)
                    rw [oldId] at keys
                    simpa using keys
                  subst back
                  change rowAt _ = _
                  rw [others oldKey old.row fresh, Function.update_idem, ← was, Function.update_eq_self]

/-- The ids stay distinct, whatever an update returns. -/
theorem updateByRowId_nodup {engine : Engine} {set : Row → Except Error Row}
    (distinct : (rows.map StoredRow.id).Nodup) :
    ((updateByRowId engine id set rows).2.map StoredRow.id).Nodup := by
  unfold updateByRowId
  split
  · exact distinct
  · split
    · exact distinct
    · split
      · exact distinct
      · rename_i row _
        have ids : StoredRow.id ∘ (fun other => if other.id = id then { id, row, pending := true } else other) =
            StoredRow.id := by
          funext stored
          by_cases isOld : stored.id = id <;> simp [isOld]
        rw [List.map_map, ids]
        exact distinct

theorem insertDiscard_nodup [Stoolap] {engine : Engine} {row : Row} {after : TxRows}
    (distinct : (rows.map StoredRow.id).Nodup) (inserted : insertDiscard engine table row rows = .ok after) :
    (after.map StoredRow.id).Nodup := by
  obtain ⟨newId, rfl, fresh, -⟩ := insertDiscard_ok inserted
  rw [List.map_append, List.nodup_append]
  refine ⟨distinct, List.nodup_singleton _, fun left leftIn right rightIn same => ?_⟩
  obtain ⟨stored, storedIn, rfl⟩ := List.mem_map.mp leftIn
  obtain rfl := List.mem_singleton.mp rightIn
  exact fresh stored storedIn same

theorem deleteByRowId_nodup (engine : Engine) (id : Int64) (distinct : (rows.map StoredRow.id).Nodup) :
    ((deleteByRowId engine id rows).2.map StoredRow.id).Nodup := by
  unfold deleteByRowId
  split
  · exact distinct
  · exact distinct.sublist (List.filter_sublist.map StoredRow.id)

theorem update_nodup [Stoolap] {engine : Engine} {tableColumns : Nat}
    (distinct : (rows.map StoredRow.id).Nodup) :
    ((update engine table tableColumns id columns values rows).2.map StoredRow.id).Nodup := by
  unfold update
  split
  · exact distinct
  · split
    · exact distinct
    · split
      · unfold updateMove
        split
        · exact distinct
        · exact distinct
        · split
          · exact distinct
          · dsimp only
            split
            · exact distinct
            · have deleted := deleteByRowId_nodup engine id distinct
              split
              · rename_i ran
                rwa [ran] at deleted
              · rename_i ran
                rw [ran] at deleted
                split
                · rename_i inserted
                  exact insertDiscard_nodup deleted inserted
                · split
                  · exact deleted
                  · rename_i restored
                    exact insertDiscard_nodup deleted restored
      · unfold updateInPlace
        dsimp only
        split
        · exact updateByRowId_nodup distinct
        · split
          · exact distinct
          · exact distinct
          · split
            · exact distinct
            · split
              · exact distinct
              · exact updateByRowId_nodup distinct

end Update

/-- An update that fails leaves the rows as they were, one that finds no row
too, and one that succeeds changes that row and nothing else. -/
theorem update_atomic [Stoolap] (engine : Engine) (table : TableDef) (tableColumns : Nat) (id : Int64)
    (columns : List Nat) (values : List Value) (rows : TxRows)
    (distinct : (rows.map StoredRow.id).Nodup)
    (primary : ∀ pk, table.schema.pkColumn = some pk →
      ∀ stored ∈ rows, stored.row.value pk = some (.integer stored.id))
    (restores : ∀ old ∈ rows, old.id = id →
      ∃ after, insertDiscard engine table old.row (rows.filter fun stored => stored.id ≠ id) = .ok after) :
    UpdateOutcome table id columns values rows (update engine table tableColumns id columns values rows) ∧
      ((update engine table tableColumns id columns values rows).2.map StoredRow.id).Nodup := by
  refine ⟨?_, update_nodup distinct⟩
  unfold update
  split
  · exact rfl
  · split
    · exact rfl
    · cases isPk : table.schema.pkColumn with
      | none => exact updateInPlace_outcome primary fun pk isPk' => by simp [isPk] at isPk'
      | some pk =>
          simp only [Option.any_some]
          split
          · rename_i assigned
            exact updateMove_outcome isPk (by simpa using assigned) (primary pk isPk) restores
          · rename_i unassigned
            refine updateInPlace_outcome primary fun other isOther => ?_
            obtain rfl : pk = other := Option.some.inj (isPk.symm.trans isOther)
            simpa using unassigned

/-- A row whose new id another row has goes back to its own. -/
theorem update_atomic_taken :
    rowAt (@update Stoolap.reference willing uniqueTable 2 1 [0] [some (.integer 2)]
        [⟨1, newRow 1 7, false⟩, ⟨2, newRow 2 8, false⟩]).2 =
      rowAt [⟨1, newRow 1 7, false⟩, ⟨2, newRow 2 8, false⟩] := by
  let _ := Stoolap.reference
  have refused : (update willing uniqueTable 2 1 [0] [some (.integer 2)]
      [⟨1, newRow 1 7, false⟩, ⟨2, newRow 2 8, false⟩]).1 = .error (.primaryKeyConstraint 2) := by
    decide
  have outcome := (update_atomic willing uniqueTable 2 1 [0] [some (.integer 2)]
    [⟨1, newRow 1 7, false⟩, ⟨2, newRow 2 8, false⟩] (by decide)
    (fun pk isPk stored member => by
      obtain rfl : 0 = pk := Option.some.inj isPk
      revert stored
      decide)
    (fun old oldIn oldId => by
      rcases List.mem_cons.mp oldIn with rfl | rest
      · exact ⟨[⟨2, newRow 2 8, false⟩, ⟨1, newRow 1 7, true⟩], by decide⟩
      · rw [List.mem_singleton.mp rest] at oldId
        exact absurd oldId (by decide))).1
  cases ran : update willing uniqueTable 2 1 [0] [some (.integer 2)]
      [⟨1, newRow 1 7, false⟩, ⟨2, newRow 2 8, false⟩] with
  | mk result after =>
      rw [ran] at refused outcome
      subst refused
      exact outcome

end StoolapMariadb.Write
