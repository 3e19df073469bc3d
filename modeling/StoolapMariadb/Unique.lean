import StoolapMariadb.Write
import StoolapMariadb.Lib.Runs
import Mathlib.Data.List.Pairwise

namespace StoolapMariadb.Write

/-! UNIQUE and the primary key over runs of direct writes: no two rows hold
one id or one key, whatever the operations return. -/

/-- The columns of each UNIQUE index. -/
def TableDef.indexIds (table : TableDef) : List (List Nat) :=
  table.uniqueIndexes.filterMap fun (_, names) => table.columnIds names

/-- Two rows hold one key of an index, no NULL in it. -/
def shareKey [Stoolap] (ids : List Nat) (left right : Row) : Bool :=
  match keyOf ids left with
  | some key => holdsKey ids key right
  | none => false

/-- Rows with different ids and no key of a UNIQUE index in common. -/
def Apart [Stoolap] (table : TableDef) (left right : StoredRow) : Prop :=
  left.id ≠ right.id ∧ ∀ ids ∈ table.indexIds, shareKey ids left.row right.row = false

/-- No two rows share an id or a key, and an INTEGER primary key is the row
id. -/
structure KeysHold [Stoolap] (table : TableDef) (rows : TxRows) : Prop where
  apart : rows.Pairwise (Apart table)
  primary : ∀ pk, table.schema.pkColumn = some pk →
    ∀ stored ∈ rows, stored.row.value pk = some (.integer stored.id)

/-- No row the transaction wrote holds a key of `row`. -/
def ApartFromPending [Stoolap] (table : TableDef) (rows : TxRows) (row : Row) : Prop :=
  ∀ stored ∈ rows, stored.pending = true → ∀ ids ∈ table.indexIds, shareKey ids row stored.row = false

/-- Rows of one batch with no key in common. -/
def Distinct [Stoolap] (table : TableDef) (newRows : List Row) : Prop :=
  ∀ ids ∈ table.indexIds, newRows.Pairwise fun left right => shareKey ids left right = false

inductive Op where
  | insert (tableColumns : Nat) (newRows : List Row)
  | update (tableColumns : Nat) (id : Int64) (columns : List Nat) (values : List Value)
  | delete (id : Int64)

/-- One operation, with what the engine decides during it. -/
def step [Stoolap] (table : TableDef) (rows : TxRows) : Engine × Op → TxRows
  | (engine, .insert tableColumns newRows) => (insert engine table tableColumns newRows rows).2
  | (engine, .update tableColumns id columns values) =>
      (update engine table tableColumns id columns values rows).2
  | (engine, .delete id) => (delete engine id rows).2

/-- No row the transaction wrote with the id `i64::MIN` holds a key that an
insert checks row by row: the check takes such a row for the new one. -/
def Unmasked [Stoolap] (table : TableDef) (rows : TxRows) : Engine × Op → Prop
  | (_, .insert _ newRows) =>
      ∀ stored ∈ rows, stored.pending = true → stored.id = noRow →
        ∀ row ∈ newRows, ∀ ids ∈ table.indexIds, newRows.length = 1 ∨ ids.length ≠ 1 →
          shareKey ids row stored.row = false
  | _ => True

section Keys

variable [Stoolap] {table : TableDef} {rows : TxRows} {ids : List Nat}

/-- A set of keys holds the keys that the order finds apart. -/
theorem equalKeys_eq [lawful : LawfulStoolap] (left right : List Scalar) :
    equalKeys left right = sameKey left right := by
  have pairs : (fun pair : Scalar × Scalar => Stoolap.equal pair.1 pair.2) =
      fun pair => Stoolap.compare pair.1 pair.2 == .eq := by
    funext pair
    rw [Bool.eq_iff_iff, lawful.equal_iff, beq_iff_eq]
  exact congrArg (fun same => left.length == right.length && (left.zip right).all same) pairs

theorem sameKey_comm [lawful : LawfulStoolap] (left right : List Scalar) :
    sameKey left right = sameKey right left := by
  have oriented := lawful.transCmp
  induction left generalizing right with
  | nil => cases right <;> rfl
  | cons first rest ih =>
      cases right with
      | nil => rfl
      | cons other others =>
          have heads : (Stoolap.compare first other == .eq) = (Stoolap.compare other first == .eq) := by
            have swapped : Stoolap.compare first other = (Stoolap.compare other first).swap :=
              Std.OrientedCmp.eq_swap
            rw [swapped]
            cases Stoolap.compare other first <;> rfl
          have tails := ih others
          simp only [sameKey, List.length_cons, List.zip_cons_cons, List.all_cons, heads] at tails ⊢
          rw [Bool.and_left_comm, Bool.and_left_comm (others.length + 1 == rest.length + 1)]
          congr 1
          simpa using tails

theorem shareKey_comm [LawfulStoolap] (left right : Row) :
    shareKey ids left right = shareKey ids right left := by
  simp only [shareKey, holdsKey]
  cases keyOf ids left <;> cases keyOf ids right <;> simp [sameKey_comm]

theorem apart_symm [LawfulStoolap] {left right : StoredRow} (apart : Apart table left right) :
    Apart table right left :=
  ⟨apart.1.symm, fun ids member => by rw [shareKey_comm]; exact apart.2 ids member⟩

theorem KeysHold.apart_of_mem [LawfulStoolap] (holds : KeysHold table rows) {left right : StoredRow}
    (leftIn : left ∈ rows) (rightIn : right ∈ rows) (different : left.id ≠ right.id) :
    Apart table left right := by
  have symmetric : Std.Symm (Apart table) := ⟨fun _ _ apart => apart_symm apart⟩
  exact holds.apart.forall leftIn rightIn fun same => different (same ▸ rfl)

/-- A new row apart from every row keeps the keys. -/
theorem KeysHold.append {new : StoredRow} (holds : KeysHold table rows)
    (apart : ∀ stored ∈ rows, Apart table stored new)
    (primary : ∀ pk, table.schema.pkColumn = some pk → new.row.value pk = some (.integer new.id)) :
    KeysHold table (rows ++ [new]) where
  apart := List.pairwise_append.mpr ⟨holds.apart, List.pairwise_singleton _ _, by simpa using apart⟩
  primary pk isPk stored member := by
    rcases List.mem_append.mp member with old | added
    · exact holds.primary pk isPk stored old
    · rw [List.mem_singleton.mp added]
      exact primary pk isPk

theorem KeysHold.filter (holds : KeysHold table rows) (keep : StoredRow → Bool) :
    KeysHold table (rows.filter keep) where
  apart := holds.apart.filter keep
  primary pk isPk stored member := holds.primary pk isPk stored (List.mem_filter.mp member).1

/-- A row set in place keeps the keys when its new state is apart from the
other rows. -/
theorem KeysHold.replace [LawfulStoolap] {new : StoredRow} (holds : KeysHold table rows)
    (apart : ∀ stored ∈ rows, stored.id ≠ new.id → Apart table stored new)
    (primary : ∀ pk, table.schema.pkColumn = some pk → new.row.value pk = some (.integer new.id)) :
    KeysHold table (rows.map fun other => if other.id = new.id then new else other) where
  apart := by
    rw [List.pairwise_map]
    refine List.Pairwise.imp_of_mem (fun {left right} leftIn rightIn before => ?_) holds.apart
    by_cases leftIs : left.id = new.id <;> by_cases rightIs : right.id = new.id
    · exact absurd (leftIs.trans rightIs.symm) before.1
    · rw [if_pos leftIs, if_neg rightIs]
      exact apart_symm (apart right rightIn rightIs)
    · rw [if_neg leftIs, if_pos rightIs]
      exact apart left leftIn leftIs
    · rw [if_neg leftIs, if_neg rightIs]
      exact before
  primary pk isPk stored member := by
    obtain ⟨other, otherIn, rfl⟩ := List.mem_map.mp member
    split
    · exact primary pk isPk
    · exact holds.primary pk isPk other otherIn

omit [Stoolap] in
theorem mem_indexIds :
    ids ∈ table.indexIds ↔
      ∃ index names, (index, names) ∈ table.uniqueIndexes ∧ table.columnIds names = some ids := by
  simp [TableDef.indexIds]

omit [Stoolap] in
theorem columnIds_spec {names : List String} (resolved : table.columnIds names = some ids) :
    ids.length = names.length ∧ ∀ column ∈ ids, column < table.schema.columns.length := by
  induction names generalizing ids with
  | nil =>
      obtain rfl : [] = ids := by simpa [TableDef.columnIds] using resolved
      simp
  | cons name names ih =>
      simp only [TableDef.columnIds, List.mapM_cons, Option.bind_eq_bind, Option.bind_eq_some_iff,
        Option.pure_def, Option.some.injEq] at resolved
      obtain ⟨first, found, others, resolvedOthers, rfl⟩ := resolved
      obtain ⟨lengths, bounds⟩ := ih resolvedOthers
      have bound := (List.findIdx?_eq_some_iff_findIdx_eq.mp found).1
      simp only [List.length_cons, lengths, List.mem_cons, forall_eq_or_imp, true_and]
      exact ⟨bound, bounds⟩

omit [Stoolap] in
/-- Every column of an index is one of the table's, and it has one. -/
theorem exists_indexed (member : ids ∈ table.indexIds) :
    ∃ column ∈ ids, column < table.schema.columns.length := by
  obtain ⟨index, names, indexIn, resolved⟩ := mem_indexIds.mp member
  obtain ⟨lengths, bounds⟩ := columnIds_spec resolved
  have named := table.indexed (index, names) indexIn
  cases ids with
  | nil => exact absurd (List.eq_nil_of_length_eq_zero lengths.symm) named
  | cons first rest => exact ⟨first, List.mem_cons_self, bounds first List.mem_cons_self⟩

theorem shareKey_eq_true {left right : Row} :
    shareKey ids left right = true ↔ ∃ key, keyOf ids left = some key ∧ holdsKey ids key right = true := by
  cases keys : keyOf ids left <;> simp [shareKey, keys]

/-- What the row check lets pass: only the row itself holds a key over a
changed column. -/
theorem checkUnique_ok {engine : Engine} {id : Int64} {row : Row} {changed : List Nat}
    {indexes : List (String × List String)}
    (accepted : checkUnique engine table id row changed rows indexes = .ok ())
    {index : String} {names : List String} (member : (index, names) ∈ indexes)
    (resolved : table.columnIds names = some ids) (touched : ∃ column ∈ ids, column ∈ changed)
    {stored : StoredRow} (storedIn : stored ∈ rows) (shares : shareKey ids row stored.row = true) :
    stored.id = id := by
  induction indexes with
  | nil => cases member
  | cons head indexes ih =>
      obtain ⟨headIndex, headNames⟩ := head
      have rest (accepted : checkUnique engine table id row changed rows indexes = .ok ())
          (elsewhere : (index, names) ≠ (headIndex, headNames)) : stored.id = id :=
        ih accepted ((List.mem_cons.mp member).resolve_left elsewhere)
      by_cases here : (index, names) = (headIndex, headNames)
      · obtain ⟨rfl, rfl⟩ := Prod.mk.inj here
        obtain ⟨key, keys, holds⟩ := shareKey_eq_true.mp shares
        have any : (ids.any fun column => changed.contains column) = true := by simpa using touched
        simp only [checkUnique, resolved, any, Bool.not_true, Bool.false_eq_true, if_false, keys] at accepted
        by_contra different
        have found : (rows.find? fun other => holdsKey ids key other.row && other.id ≠ id).isSome := by
          rw [List.find?_isSome]
          exact ⟨stored, storedIn, by simp [holds, different]⟩
        obtain ⟨other, isOther⟩ := Option.isSome_iff_exists.mp found
        rw [isOther] at accepted
        cases accepted
      · simp only [checkUnique] at accepted
        split at accepted
        · exact rest accepted here
        · split at accepted
          · exact rest accepted here
          · split at accepted
            · exact rest accepted here
            · split at accepted
              · cases accepted
              · split at accepted
                · cases accepted
                · exact rest accepted here

theorem checkUnique_apart {engine : Engine} {id : Int64} {row : Row} {changed : List Nat}
    (accepted : checkUnique engine table id row changed rows table.uniqueIndexes = .ok ())
    (member : ids ∈ table.indexIds) (touched : ∃ column ∈ ids, column ∈ changed)
    {stored : StoredRow} (storedIn : stored ∈ rows) (other : stored.id ≠ id) :
    shareKey ids row stored.row = false := by
  obtain ⟨index, names, indexIn, resolved⟩ := mem_indexIds.mp member
  by_contra shares
  exact other (checkUnique_ok accepted indexIn resolved touched storedIn (by simpa using shares))

theorem committedConflict_eq_false {row : Row} (free : committedConflict table rows row = false)
    (member : ids ∈ table.indexIds) {stored : StoredRow} (storedIn : stored ∈ rows)
    (committed : stored.pending = false) : shareKey ids row stored.row = false := by
  obtain ⟨index, names, indexIn, resolved⟩ := mem_indexIds.mp member
  have none := List.any_eq_false.mp free (index, names) indexIn
  simp only [resolved] at none
  cases keys : keyOf ids row with
  | none => simp [shareKey, keys]
  | some key =>
      simp only [keys, List.any_eq_true, not_exists, not_and] at none
      have unheld := none stored storedIn
      simpa [shareKey, keys, committed] using unheld

/-- An insert the engine takes adds one pending row, under an id of its own. -/
theorem insertDiscard_ok {engine : Engine} {row : Row} {after : TxRows}
    (inserted : insertDiscard engine table row rows = .ok after) :
    ∃ id, after = rows ++ [{ id, row, pending := true }] ∧ (∀ stored ∈ rows, stored.id ≠ id) ∧
      committedConflict table rows row = false ∧
      ∀ pk, table.schema.pkColumn = some pk → row.value pk = some (.integer id) := by
  unfold insertDiscard at inserted
  split at inserted
  · cases inserted
  · split at inserted
    · cases inserted
    · rename_i id hasId
      split at inserted
      · cases inserted
      · rename_i fresh
        split at inserted
        · cases inserted
        · rename_i free
          refine ⟨id, (Except.ok.inj inserted).symm, ?_, by simpa using free, ?_⟩
          · simpa using fresh
          · intro pk isPk
            simp only [rowId, isPk] at hasId
            split at hasId
            · rename_i key value
              rw [value, Except.ok.inj hasId]
            · cases hasId

/-- The engine's own check covers the committed rows, so an insert needs only
the pending ones looked up. -/
theorem insertDiscard_keysHold [LawfulStoolap] {engine : Engine} {row : Row} {after : TxRows}
    (holds : KeysHold table rows) (inserted : insertDiscard engine table row rows = .ok after)
    (apart : ApartFromPending table rows row) : KeysHold table after := by
  obtain ⟨id, rfl, fresh, free, primary⟩ := insertDiscard_ok inserted
  refine holds.append (fun stored storedIn => ⟨fresh stored storedIn, fun ids member => ?_⟩) primary
  rw [shareKey_comm]
  cases written : stored.pending with
  | false => exact committedConflict_eq_false free member storedIn written
  | true => exact apart stored storedIn written ids member

theorem insertRows_keysHold [LawfulStoolap] {engine : Engine} {newRows : List Row} {after : TxRows}
    (holds : KeysHold table rows) (apart : ∀ row ∈ newRows, ApartFromPending table rows row)
    (distinct : Distinct table newRows)
    (inserted : newRows.foldlM (fun rows row => insertDiscard engine table row rows) rows = .ok after) :
    KeysHold table after := by
  induction newRows generalizing rows with
  | nil => exact Except.ok.inj inserted ▸ holds
  | cons row newRows ih =>
      rw [List.foldlM_cons] at inserted
      cases first : insertDiscard engine table row rows with
      | error error => simp [first, bind, Except.bind] at inserted
      | ok next =>
          simp only [first, bind, Except.bind] at inserted
          have nextHolds := insertDiscard_keysHold holds first (apart row List.mem_cons_self)
          obtain ⟨id, rfl, -⟩ := insertDiscard_ok first
          refine ih nextHolds (fun other otherIn stored storedIn written ids member => ?_)
            (fun ids member => (List.pairwise_cons.mp (distinct ids member)).2) inserted
          rcases List.mem_append.mp storedIn with old | added
          · exact apart other (List.mem_cons_of_mem _ otherIn) stored old written ids member
          · rw [List.mem_singleton.mp added, shareKey_comm]
            exact (List.pairwise_cons.mp (distinct ids member)).1 other otherIn

theorem insertBatch_keysHold [LawfulStoolap] {engine : Engine} {newRows : List Row} {after : TxRows}
    (holds : KeysHold table rows) (apart : ∀ row ∈ newRows, ApartFromPending table rows row)
    (distinct : Distinct table newRows)
    (inserted : insertBatch engine table newRows rows = .ok after) : KeysHold table after := by
  unfold insertBatch at inserted
  split at inserted
  · cases inserted
  · exact insertRows_keysHold holds apart distinct inserted

/-- The keys collected from new rows: no two rows have one, and every row's is
among them. -/
theorem seenKeys_ok [LawfulStoolap] {newRows : List Row} {seen final : List (List Scalar)}
    (collected : seenKeys ids newRows seen = .ok final) :
    (newRows.Pairwise fun left right => shareKey ids left right = false) ∧
      (∀ row ∈ newRows, ∀ key, keyOf ids row = some key →
        key ∈ final ∧ ∀ other ∈ seen, sameKey other key = false) ∧
      ∀ key ∈ seen, key ∈ final := by
  induction newRows generalizing seen with
  | nil =>
      obtain rfl := Except.ok.inj collected
      exact ⟨List.Pairwise.nil, fun _ member => by simp at member, fun _ member => member⟩
  | cons row newRows ih =>
      cases keys : keyOf ids row with
      | none =>
          simp only [seenKeys, keys] at collected
          obtain ⟨pairwise, covered, kept⟩ := ih collected
          refine ⟨List.pairwise_cons.mpr ⟨fun other _ => by simp [shareKey, keys], pairwise⟩, ?_, kept⟩
          intro other member key isKey
          rcases List.mem_cons.mp member with rfl | later
          · rw [keys] at isKey
            cases isKey
          · exact covered other later key isKey
      | some key =>
          simp only [seenKeys, keys, equalKeys_eq] at collected
          split at collected
          · cases collected
          · rename_i unseen
            obtain ⟨pairwise, covered, kept⟩ := ih collected
            have fresh : ∀ other ∈ seen, sameKey other key = false := by simpa using unseen
            refine ⟨List.pairwise_cons.mpr ⟨fun other member => ?_, pairwise⟩, ?_,
              fun other member => kept other (List.mem_cons_of_mem _ member)⟩
            · cases others : keyOf ids other with
              | none => simp [shareKey, keys, holdsKey, others]
              | some otherKey =>
                  have apart := (covered other member otherKey others).2 key List.mem_cons_self
                  rw [sameKey_comm] at apart
                  simpa [shareKey, keys, holdsKey, others] using apart
            · intro other member otherKey isKey
              rcases List.mem_cons.mp member with rfl | later
              · obtain rfl : key = otherKey := Option.some.inj (keys ▸ isKey)
                exact ⟨kept key List.mem_cons_self, fresh⟩
              · obtain ⟨among, apart⟩ := covered other later otherKey isKey
                exact ⟨among, fun earlier earlierIn => apart earlier (List.mem_cons_of_mem _ earlierIn)⟩

theorem checkEach_ok {engine : Engine} {newRows : List Row}
    (accepted : checkEach engine table ids rows newRows = .ok ()) {row : Row} (member : row ∈ newRows) :
    checkUnique engine table noRow row ids rows table.uniqueIndexes = .ok () := by
  induction newRows with
  | nil => cases member
  | cons first newRows ih =>
      simp only [checkEach] at accepted
      split at accepted
      · cases accepted
      · rename_i firstAccepted
        rcases List.mem_cons.mp member with rfl | later
        · exact firstAccepted
        · exact ih accepted later

/-- What the batch check lets pass: no key twice in the batch, and none a
stored row holds, but for a row under `noRow` and a composite index. -/
theorem checkUniqueBatch_ok [LawfulStoolap] {engine : Engine} {newRows : List Row}
    {indexes : List (String × List String)} (known : ∀ index ∈ indexes, index ∈ table.uniqueIndexes)
    (accepted : checkUniqueBatch engine table newRows rows indexes = .ok ())
    {index : String} {names : List String} (member : (index, names) ∈ indexes)
    (resolved : table.columnIds names = some ids) :
    (newRows.Pairwise fun left right => shareKey ids left right = false) ∧
      ∀ row ∈ newRows, ∀ stored ∈ rows, shareKey ids row stored.row = true →
        ids.length ≠ 1 ∧ stored.id = noRow := by
  induction indexes with
  | nil => cases member
  | cons head indexes ih =>
      obtain ⟨headIndex, headNames⟩ := head
      have rest (accepted : checkUniqueBatch engine table newRows rows indexes = .ok ())
          (elsewhere : (index, names) ≠ (headIndex, headNames)) :=
        ih (fun index indexIn => known index (List.mem_cons_of_mem _ indexIn)) accepted
          ((List.mem_cons.mp member).resolve_left elsewhere)
      by_cases here : (index, names) = (headIndex, headNames)
      · obtain ⟨rfl, rfl⟩ := Prod.mk.inj here
        have indexed : ids ∈ table.indexIds :=
          mem_indexIds.mpr ⟨index, names, known _ List.mem_cons_self, resolved⟩
        simp only [checkUniqueBatch, resolved] at accepted
        cases collected : seenKeys ids newRows [] with
        | error key => simp [collected] at accepted
        | ok seen =>
            obtain ⟨pairwise, covered, -⟩ := seenKeys_ok collected
            refine ⟨pairwise, fun row rowIn stored storedIn shares => ?_⟩
            obtain ⟨key, keys, holdsKey⟩ := shareKey_eq_true.mp shares
            have keyIn := (covered row rowIn key keys).1
            rw [collected] at accepted
            cases seen with
            | nil => cases keyIn
            | cons firstKey otherKeys =>
                dsimp only at accepted
                split at accepted
                · rename_i column
                  split at accepted
                  · cases accepted
                  · rename_i notFound
                    have unheld := List.find?_eq_none.mp notFound stored storedIn
                    exact absurd (List.any_eq_true.mpr ⟨key, keyIn, holdsKey⟩) unheld
                · rename_i composite
                  split at accepted
                  · cases accepted
                  · rename_i eachAccepted
                    obtain ⟨column, columnIn, -⟩ := exists_indexed indexed
                    refine ⟨fun single => ?_, ?_⟩
                    · obtain ⟨only, rfl⟩ := List.length_eq_one_iff.mp single
                      exact composite only rfl
                    · exact checkUnique_ok (checkEach_ok eachAccepted rowIn)
                        (known _ List.mem_cons_self) resolved ⟨column, columnIn, columnIn⟩ storedIn shares
      · simp only [checkUniqueBatch] at accepted
        split at accepted
        · exact rest accepted here
        · split at accepted
          · cases accepted
          · exact rest accepted here
          · split at accepted
            · split at accepted
              · cases accepted
              · split at accepted
                · cases accepted
                · exact rest accepted here
            · split at accepted
              · cases accepted
              · exact rest accepted here

omit [Stoolap] in
theorem indexIds_of_isEmpty (none : table.uniqueIndexes.isEmpty = true) : ids ∉ table.indexIds := by
  simp [TableDef.indexIds, List.isEmpty_iff.mp none]

omit [Stoolap] in
theorem checkColumns_ok {tableColumns : Nat} (checked : checkColumns table tableColumns = .ok ()) :
    table.schema.columns.length = tableColumns := by
  unfold checkColumns at checked
  split at checked
  · cases checked
  · rename_i same
    simpa using same

theorem attempt_keysHold {count : Int64} {result : Except Error TxRows} (holds : KeysHold table rows)
    (taken : ∀ after, result = .ok after → KeysHold table after) :
    KeysHold table (attempt rows count result).2 := by
  cases result with
  | error error => exact holds
  | ok after => exact taken after rfl

theorem insert_keysHold [LawfulStoolap] {engine : Engine} {tableColumns : Nat} {newRows : List Row}
    (holds : KeysHold table rows) (unmasked : Unmasked table rows (engine, .insert tableColumns newRows)) :
    KeysHold table (insert engine table tableColumns newRows rows).2 := by
  unfold insert
  split
  · exact holds
  · rename_i checked
    have columns := checkColumns_ok checked
    dsimp only
    split
    · split
      · exact holds
      · rename_i accepted
        refine attempt_keysHold holds fun after inserted => insertBatch_keysHold holds ?_ ?_ inserted
        · intro row rowIn stored storedIn written ids member
          obtain ⟨index, names, indexIn, resolved⟩ := mem_indexIds.mp member
          have only := (checkUniqueBatch_ok (fun _ indexIn => indexIn) accepted indexIn resolved).2
          by_contra shares
          obtain ⟨composite, sentinel⟩ := only row rowIn stored storedIn (by simpa using shares)
          exact shares (unmasked stored storedIn written sentinel row rowIn ids member (.inr composite))
        · intro ids member
          obtain ⟨index, names, indexIn, resolved⟩ := mem_indexIds.mp member
          exact (checkUniqueBatch_ok (fun _ indexIn => indexIn) accepted indexIn resolved).1
    · rename_i few
      split
      · rename_i indexed
        split
        · exact holds
        · rename_i row last
          split
          · exact holds
          · rename_i accepted
            have single : newRows.length = 1 := by
              have some : newRows ≠ [] := by
                rintro rfl
                cases last
              have positive := List.length_pos_iff.mpr some
              simp only [Bool.and_eq_true, decide_eq_true_eq, not_and] at few
              have most := few indexed
              omega
            have rowIn : row ∈ newRows := List.mem_of_getLast? last
            refine attempt_keysHold holds fun after inserted => insertDiscard_keysHold holds inserted ?_
            intro stored storedIn written ids member
            by_cases sentinel : stored.id = noRow
            · exact unmasked stored storedIn written sentinel row rowIn ids member (.inl single)
            · obtain ⟨column, columnIn, bound⟩ := exists_indexed member
              refine checkUnique_apart accepted member ⟨column, columnIn, ?_⟩ storedIn sentinel
              rw [List.mem_range]
              omega
      · rename_i unindexed
        have none {ids} : ids ∉ table.indexIds := indexIds_of_isEmpty (by simpa using unindexed)
        have apart (row : Row) : ApartFromPending table rows row :=
          fun _ _ _ ids member => absurd member none
        split
        · exact attempt_keysHold holds fun after inserted =>
            insertDiscard_keysHold holds inserted (apart _)
        · exact attempt_keysHold holds fun after inserted =>
            insertBatch_keysHold holds (fun row _ => apart row) (fun ids member => absurd member none) inserted

omit [Stoolap] in
theorem setColumns_value {row after : Row} {assignments : List (Nat × Value)}
    (set : setColumns row assignments = .ok after) {column : Nat}
    (unset : ∀ assignment ∈ assignments, assignment.1 ≠ column) : after.value column = row.value column := by
  induction assignments generalizing row with
  | nil => rw [Except.ok.inj set]
  | cons assignment assignments ih =>
      obtain ⟨target, value⟩ := assignment
      simp only [setColumns] at set
      split at set
      · rw [ih set fun other member => unset other (List.mem_cons_of_mem _ member)]
        have elsewhere : target ≠ column := unset (target, value) List.mem_cons_self
        simp [Row.value, List.getElem?_set_ne elsewhere]
      · cases set

omit [Stoolap] in
theorem keyOf_congr {left right : Row} (same : ∀ column ∈ ids, left.value column = right.value column) :
    keyOf ids left = keyOf ids right := by
  induction ids with
  | nil => rfl
  | cons column ids ih =>
      have others := ih fun other member => same other (List.mem_cons_of_mem _ member)
      simp only [keyOf] at others
      simp only [keyOf, List.mapM_cons, same column List.mem_cons_self, others]

/-- A row's new state shares no key with another row: changed keys are looked
up, the others are the row's own. -/
theorem updated_apart [LawfulStoolap] {engine : Engine} {stored : StoredRow} {row : Row}
    {columns : List Nat} {values : List Value} (holds : KeysHold table rows) (storedIn : stored ∈ rows)
    (set : setColumns stored.row (columns.zip values) = .ok row)
    (accepted : table.uniqueIndexes.isEmpty = false →
      checkUnique engine table stored.id row columns rows table.uniqueIndexes = .ok ())
    {other : StoredRow} (otherIn : other ∈ rows) (different : other.id ≠ stored.id)
    (member : ids ∈ table.indexIds) : shareKey ids row other.row = false := by
  by_cases touched : ∃ column ∈ ids, column ∈ columns
  · cases indexed : table.uniqueIndexes.isEmpty with
    | true => exact absurd member (indexIds_of_isEmpty indexed)
    | false => exact checkUnique_apart (accepted indexed) member touched otherIn different
  · have kept : keyOf ids row = keyOf ids stored.row := by
      refine keyOf_congr fun column columnIn => setColumns_value set fun assignment assigned same => ?_
      exact touched ⟨column, columnIn, same ▸ (List.of_mem_zip assigned).1⟩
    have before := (holds.apart_of_mem storedIn otherIn different.symm).2 ids member
    simpa [shareKey, kept] using before

theorem updateByRowId_keysHold [LawfulStoolap] {engine : Engine} {id : Int64}
    {set : Row → Except Error Row} (holds : KeysHold table rows)
    (sets : ∀ stored ∈ rows, stored.id = id → ∀ row, set stored.row = .ok row →
      (∀ other ∈ rows, other.id ≠ stored.id → ∀ ids ∈ table.indexIds, shareKey ids row other.row = false) ∧
        ∀ pk, table.schema.pkColumn = some pk → row.value pk = stored.row.value pk) :
    KeysHold table (updateByRowId engine id set rows).2 := by
  unfold updateByRowId
  split
  · exact holds
  · split
    · exact holds
    · rename_i stored found
      have storedIn := List.mem_of_find?_eq_some found
      obtain rfl : stored.id = id := by simpa using List.find?_some found
      split
      · exact holds
      · rename_i row isRow
        obtain ⟨apart, kept⟩ := sets stored storedIn rfl row isRow
        let new : StoredRow := { id := stored.id, row, pending := true }
        refine @KeysHold.replace _ table rows _ new holds ?_ ?_
        · intro other otherIn different
          refine apart_symm ⟨different.symm, fun ids member => ?_⟩
          exact apart other otherIn different ids member
        · intro pk isPk
          exact (kept pk isPk).trans (holds.primary pk isPk stored storedIn)

theorem KeysHold.eq_of_id_eq (holds : KeysHold table rows) {left right : StoredRow}
    (leftIn : left ∈ rows) (rightIn : right ∈ rows) (same : left.id = right.id) : left = right := by
  have distinct : (rows.map StoredRow.id).Nodup :=
    List.pairwise_map.mpr (holds.apart.imp fun apart => apart.1)
  exact List.inj_on_of_nodup_map distinct leftIn rightIn same

omit [Stoolap] in
theorem fetchRow_ok {engine : Engine} {id : Int64} {stored : StoredRow}
    (fetched : fetchRow engine id rows = .ok (some stored)) : stored ∈ rows ∧ stored.id = id := by
  unfold fetchRow at fetched
  split at fetched
  · cases fetched
  · have found := Except.ok.inj fetched
    exact ⟨List.mem_of_find?_eq_some found, by simpa using List.find?_some found⟩

theorem updateInPlace_keysHold [LawfulStoolap] {engine : Engine} {id : Int64} {columns : List Nat}
    {values : List Value} (holds : KeysHold table rows)
    (stays : ∀ pk, table.schema.pkColumn = some pk → pk ∉ columns) :
    KeysHold table (updateInPlace engine table id columns values rows).2 := by
  have keepsPrimary {stored : StoredRow} {row : Row}
      (set : setColumns stored.row (columns.zip values) = .ok row) (pk : Nat)
      (isPk : table.schema.pkColumn = some pk) : row.value pk = stored.row.value pk :=
    setColumns_value set fun assignment assigned same =>
      stays pk isPk (same ▸ (List.of_mem_zip assigned).1)
  unfold updateInPlace
  dsimp only
  split
  · rename_i unindexed
    refine updateByRowId_keysHold holds fun stored storedIn _ row set => ⟨?_, keepsPrimary set⟩
    exact fun _ _ _ ids member => absurd member (indexIds_of_isEmpty unindexed)
  · split
    · exact holds
    · exact holds
    · rename_i stored fetched
      obtain ⟨storedIn, rfl⟩ := fetchRow_ok fetched
      split
      · exact holds
      · rename_i row set
        split
        · exact holds
        · rename_i accepted
          refine updateByRowId_keysHold holds fun found foundIn sameId again setAgain =>
            ⟨fun other otherIn different ids member => ?_, keepsPrimary setAgain⟩
          obtain rfl := holds.eq_of_id_eq foundIn storedIn sameId
          obtain rfl : row = again := Except.ok.inj (set ▸ setAgain)
          exact updated_apart holds foundIn set (fun _ => accepted) otherIn different member

theorem deleteByRowId_keysHold {engine : Engine} {id : Int64} (holds : KeysHold table rows) :
    KeysHold table (deleteByRowId engine id rows).2 := by
  unfold deleteByRowId
  split
  · exact holds
  · exact holds.filter _

/-- A moved row's new state and its old one both share no key with the rows
that stay, so either may go in. -/
theorem updateMove_keysHold [LawfulStoolap] {engine : Engine} {id : Int64} {columns : List Nat}
    {values : List Value} (holds : KeysHold table rows) :
    KeysHold table (updateMove engine table id columns values rows).2 := by
  unfold updateMove
  split
  · exact holds
  · exact holds
  · rename_i old fetched
    obtain ⟨oldIn, rfl⟩ := fetchRow_ok fetched
    split
    · exact holds
    · rename_i row set
      dsimp only
      split
      · exact holds
      · rename_i checked
        have accepted (indexed : table.uniqueIndexes.isEmpty = false) :
            checkUnique engine table old.id row columns rows table.uniqueIndexes = .ok () := by
          simpa [indexed] using checked
        have deleted : KeysHold table (deleteByRowId engine old.id rows).2 := deleteByRowId_keysHold holds
        have gone {count : Int64} {left : TxRows} (ran : deleteByRowId engine old.id rows = (.ok count, left)) :
            ∀ stored ∈ left, stored ∈ rows ∧ stored.id ≠ old.id := by
          intro stored member
          unfold deleteByRowId at ran
          split at ran
          · cases ran
          · obtain ⟨-, rfl⟩ := Prod.mk.inj ran
            simpa using member
        split
        · rename_i ran
          rw [ran] at deleted
          exact deleted
        · rename_i count left ran
          rw [ran] at deleted
          split
          · rename_i inserted
            refine insertDiscard_keysHold deleted inserted fun stored storedIn _ ids member => ?_
            obtain ⟨wasIn, different⟩ := gone ran stored storedIn
            exact updated_apart holds oldIn set accepted wasIn different member
          · split
            · exact deleted
            · rename_i restored
              refine insertDiscard_keysHold deleted restored fun stored storedIn _ ids member => ?_
              obtain ⟨wasIn, different⟩ := gone ran stored storedIn
              exact (holds.apart_of_mem oldIn wasIn different.symm).2 ids member

theorem update_keysHold [LawfulStoolap] {engine : Engine} {tableColumns : Nat} {id : Int64}
    {columns : List Nat} {values : List Value} (holds : KeysHold table rows) :
    KeysHold table (update engine table tableColumns id columns values rows).2 := by
  unfold update
  split
  · exact holds
  · split
    · exact holds
    · split
      · exact updateMove_keysHold holds
      · rename_i elsewhere
        refine updateInPlace_keysHold holds fun pk isPk assigned => elsewhere ?_
        simpa [isPk] using assigned

theorem step_keysHold [LawfulStoolap] {op : Engine × Op} (holds : KeysHold table rows)
    (unmasked : Unmasked table rows op) : KeysHold table (step table rows op) := by
  obtain ⟨engine, op⟩ := op
  cases op with
  | insert tableColumns newRows => exact insert_keysHold holds unmasked
  | update tableColumns id columns values => exact update_keysHold holds
  | delete id => exact deleteByRowId_keysHold holds

end Keys

/-- UNIQUE and the primary key hold after every operation of a run that
inserts no row the lookup would take for one already there. -/
theorem keys_hold_over_runs [Stoolap] [LawfulStoolap] (table : TableDef) (start : TxRows) (ops : List (Engine × Op))
    (holds : KeysHold table start) (unmasked : Runs.Along (step table) (Unmasked table) start ops) :
    Runs.Along (step table) (fun rows op => KeysHold table (step table rows op)) start ops :=
  Runs.along_of_step (fun _ _ => step_keysHold) (fun _ _ => step_keysHold) holds unmasked

/-- A table with a UNIQUE column beside its INTEGER primary key. -/
def uniqueTable : TableDef where
  name := "t"
  schema := { columns := [⟨"id", .integer⟩, ⟨"k", .integer⟩], pkColumn := some 0 }
  uniqueIndexes := [("k", ["k"])]
  indexed := by decide

def willing : Engine := { fault := fun _ _ => none, newId := fun _ _ => 0 }

def newRow (id key : Int64) : Row := [some (.integer id), some (.integer key)]

/-- Two inserts of one key, the first under the id `i64::MIN`. -/
def twice : List (Engine × Op) :=
  [(willing, .insert 2 [newRow noRow 7]), (willing, .insert 2 [newRow 1 7])]

/-- The second insert takes the first one's row for its own. -/
theorem key_inserted_twice :
    @KeysHold Stoolap.reference uniqueTable [] ∧
      ¬ Runs.Along (@step Stoolap.reference uniqueTable)
        (fun rows op => @KeysHold Stoolap.reference uniqueTable (@step Stoolap.reference uniqueTable rows op))
        [] twice := by
  let _ := Stoolap.reference
  refine ⟨⟨List.Pairwise.nil, fun _ _ _ member => by cases member⟩, fun along => ?_⟩
  have holds : KeysHold uniqueTable (step uniqueTable
      (step uniqueTable [] (willing, .insert 2 [newRow noRow 7])) (willing, .insert 2 [newRow 1 7])) :=
    along.2.1
  have rows : step uniqueTable (step uniqueTable [] (willing, .insert 2 [newRow noRow 7]))
      (willing, .insert 2 [newRow 1 7]) = [⟨noRow, newRow noRow 7, true⟩, ⟨1, newRow 1 7, true⟩] := by
    decide
  rw [rows] at holds
  have apart := (List.pairwise_cons.mp holds.apart).1 _ List.mem_cons_self
  have shared : shareKey [1] (newRow noRow 7) (newRow 1 7) = false := apart.2 [1] (by decide)
  revert shared
  decide

/-- A run that inserts two rows one by one, gives one the other's key, and
moves a row to another id. -/
def mixed : List (Engine × Op) :=
  [(willing, .insert 2 [newRow 1 7]), (willing, .insert 2 [newRow noRow 8]),
    (willing, .update 2 1 [1] [some (.integer 8)]), (willing, .update 2 1 [0] [some (.integer 2)])]

theorem keys_hold_over_runs_mixed :
    Runs.Along (@step Stoolap.reference uniqueTable)
      (fun rows op => @KeysHold Stoolap.reference uniqueTable (@step Stoolap.reference uniqueTable rows op))
      [] mixed := by
  let _ := Stoolap.reference
  have _ := Stoolap.reference_lawful
  refine keys_hold_over_runs uniqueTable [] mixed ⟨List.Pairwise.nil, fun _ _ _ member => by cases member⟩ ?_
  have first : step uniqueTable [] (willing, .insert 2 [newRow 1 7]) = [⟨1, newRow 1 7, true⟩] := by decide
  have unmasked : Unmasked uniqueTable [⟨1, newRow 1 7, true⟩] (willing, .insert 2 [newRow noRow 8]) := by
    intro stored member _ sentinel
    rw [List.mem_singleton.mp member] at sentinel
    exact absurd sentinel (by decide)
  exact ⟨fun _ member => by simp at member, first ▸ unmasked, trivial, trivial, trivial⟩

end StoolapMariadb.Write
