import StoolapMariadb.SqlGen.SetOrder
import StoolapMariadb.SqlGen.Translation

namespace StoolapMariadb.SqlGen

/-! A pushed UPDATE of signed integer columns beside MariaDB's, which works row
by row and counts the rows it changes. -/

open Kleene (Truth)
open StateExcept

/-- A row's integers, by column. -/
abbrev Record := String → Option Int64

/-- The row as stoolap holds it. -/
def Record.row (record : Record) : TableRow := fun column => integerValue (record column)

/-- The fields of the table on a row of it. -/
def Record.fields (table : TableId) (record : Record) : Field → Option Int64 :=
  fun f => if f.table = table then record f.name else none

/-- Why MariaDB fails an UPDATE in strict mode. -/
inductive UpdateError where
  | overflow
  | outOfRange
  | badNull
deriving DecidableEq

def evaluated : Outcome → Except UpdateError (Option Int64)
  | .ok value => .ok value
  | .error .overflow => .error .overflow

/-- Storing a value in its column. -/
def Field.store (fl : Field) : Option Int64 → Except UpdateError (Option Int64)
  | none => if fl.notNull then .error .badNull else .ok none
  | some n =>
      match intRange fl with
      | some (least, most) => if n < least || n > most then .error .outOfRange else .ok (some n)
      | none => .ok (some n)

section Reference

variable (table : TableId)

/-- Every value sees the columns assigned before it. -/
def setRecord (record : Record) : List (Field × Item) → Except UpdateError Record
  | [] => .ok record
  | (fl, v) :: rest => do
      let value ← fl.store (← evaluated (v.value (record.fields table)))
      setRecord (Function.update record fl.name value) rest

/-- The WHERE takes the row: only what is not NULL and not 0 does. -/
def recordTakes (filter : Option Item) (record : Record) : Except UpdateError Bool :=
  match filter with
  | none => .ok true
  | some it => do return toTruth (← evaluated (it.value (record.fields table))) = some true

/-- The row after the UPDATE, and whether it differs from the old one. -/
def updateRecord (filter : Option Item) (sets : List (Field × Item)) (record : Record) :
    Except UpdateError (Record × Bool) := do
  if ← recordTakes table filter record then
    let after ← setRecord table record sets
    return (after, sets.any fun set => after set.1.name ≠ record set.1.name)
  else return (record, false)

/-- The table after MariaDB's UPDATE, and the rows it counts. -/
def updateRecords (filter : Option Item) (sets : List (Field × Item)) (records : List Record) :
    Except UpdateError (List Record × Nat) := do
  let after ← records.mapM (updateRecord table filter sets)
  return (after.map Prod.fst, after.countP Prod.snd)

/-- A row that the WHERE takes and the SET list leaves as it was, though one of
its values is not what the column holds: a later one puts that back. -/
def Restored (filter : Option Item) (sets : List (Field × Item)) (record : Record) : Prop :=
  recordTakes table filter record = .ok true ∧ setRecord table record sets = .ok record ∧
    ∃ set ∈ sets, set.2.value (record.fields table) ≠ .ok (record set.1.name)

end Reference

section Changed

variable {table : TableId} {record after : Record}

/-- Columns that the list does not name stay. -/
theorem setRecord_frame {sets : List (Field × Item)} (ran : setRecord table record sets = .ok after) {column : String}
    (other : ∀ set ∈ sets, set.1.name ≠ column) : after column = record column := by
  induction sets generalizing record with
  | nil =>
      cases ran
      rfl
  | cons set rest ih =>
      obtain ⟨first, others⟩ := List.forall_mem_cons.mp other
      obtain ⟨value, -, ran⟩ := ExceptList.bind_ok.mp ran
      obtain ⟨stored, -, ran⟩ := ExceptList.bind_ok.mp ran
      rw [ih ran others, Function.update_of_ne first.symm]

/-- A row is counted when the WHERE takes it and it ends as another one. -/
theorem updateRecord_counts {filter : Option Item} {sets : List (Field × Item)} {changed : Bool}
    (ran : updateRecord table filter sets record = .ok (after, changed)) :
    changed = true ↔ recordTakes table filter record = .ok true ∧ after ≠ record := by
  obtain ⟨taken, takesRan, ran⟩ := ExceptList.bind_ok.mp ran
  cases taken with
  | false =>
      cases ExceptList.pure_ok.mp ran
      simp [takesRan]
  | true =>
      obtain ⟨last, setRan, ran⟩ := ExceptList.bind_ok.mp ran
      cases ExceptList.pure_ok.mp ran
      simp only [takesRan, true_and, List.any_eq_true, decide_eq_true_eq]
      constructor
      · rintro ⟨set, -, differ⟩ same
        exact differ (by rw [same])
      · intro differ
        by_contra none
        refine differ (funext fun column => ?_)
        by_cases named : ∃ set ∈ sets, set.1.name = column
        · obtain ⟨set, member, rfl⟩ := named
          by_contra changed
          exact none ⟨set, member, changed⟩
        · exact setRecord_frame setRan fun set member same => named ⟨set, member, same⟩

end Changed

section Reads

variable {may : Field → Prop} {row other : Field → Option Int64}

mutual

/-- The columns it reads decide an integer expression's value. -/
theorem value_of_reads (same : ∀ f, may f → row f = other f) :
    (it : Item) → it.Integer → Clear may it → it.value row = it.value other
  | .field attrs none, integer, _ => integer.elim
  | .field attrs (some f), _, clear => by
      cases clear _ (List.mem_singleton_self _) with
      | field allowed => exact congrArg Except.ok (same f allowed)
  | .const _ (.int _), _, _ | .null _, _, _ => rfl
  | .func _ _ type args, integer, clear =>
      congrArg type.evaluate (outcomes_of_reads same args integer.2.2.2 clear)
  | .cond _ type args, integer, clear => congrArg type.evaluate (outcomes_of_reads same args integer clear)
  | .const _ (.real _ _), integer, _ | .const _ (.decimal _), integer, _ | .const _ (.string _ _ _), integer, _
  | .const _ (.temporal _ _ _), integer, _ | .ref _ _ _ _, integer, _ | .param _, integer, _
  | .sum _ _ _, integer, _ | .window _ _ _ _ _ _, integer, _ | .subselect _ _ _ _, integer, _
  | .other _, integer, _ => integer.elim

theorem outcomes_of_reads (same : ∀ f, may f → row f = other f) :
    (items : List Item) → itemsInteger items → (∀ leaf ∈ itemsReads items, Reaches may leaf) →
      outcomes row items = outcomes other items
  | [], _, _ => rfl
  | it :: items, integer, clear => by
      have first := value_of_reads same it integer.1 fun leaf member => clear leaf (List.mem_append_left _ member)
      have rest := outcomes_of_reads same items integer.2 fun leaf member => clear leaf (List.mem_append_right _ member)
      rw [outcomes, outcomes, first, rest]

end

mutual

theorem simple_of_integer : (it : Item) → it.Integer → it.Simple
  | .field _ _, _ | .const _ _, _ | .null _, _ | .param _, _ | .other _, _ => trivial
  | .func _ _ _ args, integer => ⟨itemsSimple_of_integer args integer.2.2.2, integer.2.2.1⟩
  | .cond _ _ args, integer => itemsSimple_of_integer args integer
  | .ref _ _ _ _, integer | .sum _ _ _, integer | .window _ _ _ _ _ _, integer
  | .subselect _ _ _ _, integer => integer.elim

theorem itemsSimple_of_integer : (items : List Item) → itemsInteger items → itemsSimple items
  | [], _ => trivial
  | it :: items, integer => ⟨simple_of_integer it integer.1, itemsSimple_of_integer items integer.2⟩

end

end Reads

section InTurn

variable {table : TableId}

def Record.storeAll (record : Record) : List (String × Option Int64) → Record
  | [] => record
  | (column, value) :: rest => Record.storeAll (Function.update record column value) rest

/-- What an assignment stores, from the old row. -/
def HoldsOld (table : TableId) (old : Record) (set : Field × Item) (stored : String × Option Int64) : Prop :=
  stored.1 = set.1.name ∧ set.2.value (old.fields table) = .ok stored.2

theorem evaluated_ok {outcome : Outcome} {v : Option Int64} (ran : evaluated outcome = .ok v) : outcome = .ok v := by
  cases outcome with
  | error why => cases ran
  | ok value =>
      cases ran
      rfl

theorem store_ok {fl : Field} {v stored : Option Int64} (ran : fl.store v = .ok stored) : stored = v := by
  cases v with
  | none =>
      simp only [Field.store] at ran
      split at ran
      · cases ran
      · exact (Except.ok.inj ran).symm
  | some n =>
      simp only [Field.store] at ran
      split at ran
      · split at ran
        · cases ran
        · exact (Except.ok.inj ran).symm
      · exact (Except.ok.inj ran).symm

/-- From a row that differs from the old one in assigned columns only, the
list stores what its values are on the old one. -/
theorem setRecord_atOnce {assigned : List Field} {sets : List (Field × Item)} (inOrder : InOrder table assigned sets)
    (integer : ∀ set ∈ sets, set.2.Integer) {old now after : Record}
    (same : ∀ f, Unassigned assigned f → f.table = table → now f.name = old f.name)
    (ran : setRecord table now sets = .ok after) :
    ∃ stored, List.Forall₂ (HoldsOld table old) sets stored ∧ after = now.storeAll stored := by
  induction sets generalizing assigned now with
  | nil =>
      cases ran
      exact ⟨[], .nil, rfl⟩
  | cons set rest ih =>
      obtain ⟨fl, v⟩ := set
      obtain ⟨inTable, clear, restInOrder⟩ := inOrder
      obtain ⟨first, restInteger⟩ := List.forall_mem_cons.mp integer
      obtain ⟨value, valueRan, ran⟩ := ExceptList.bind_ok.mp ran
      obtain ⟨kept, storeRan, ran⟩ := ExceptList.bind_ok.mp ran
      rw [store_ok storeRan] at ran
      have valueOld : v.value (old.fields table) = .ok value := by
        rw [← evaluated_ok valueRan]
        refine @value_of_reads (Unassigned assigned) _ _ (fun f unassigned => ?_) v first clear
        simp only [Record.fields]
        split
        · exact (same f unassigned ‹_›).symm
        · rfl
      have next (f : Field) (unassigned : Unassigned (fl :: assigned) f) (isTable : f.table = table) :
          Function.update now fl.name value f.name = old f.name := by
        obtain ⟨notFirst, others⟩ := List.forall_mem_cons.mp unassigned
        have differ : f.name ≠ fl.name := by
          rintro named
          simp [Field.same, inTable, isTable, named] at notFirst
        rw [Function.update_of_ne differ]
        exact same f others isTable
      obtain ⟨stored, stores, rfl⟩ := ih restInOrder restInteger next ran
      exact ⟨(fl.name, value) :: stored, .cons ⟨rfl, valueOld⟩ stores, rfl⟩

theorem row_storeAll (record : Record) (stored : List (String × Option Int64)) :
    (record.storeAll stored).row = storeAll record.row (stored.map fun set => (set.1, integerValue set.2)) := by
  induction stored generalizing record with
  | nil => rfl
  | cons set rest ih =>
      obtain ⟨column, value⟩ := set
      have updated : Record.row (Function.update record column value) =
          Function.update record.row column (integerValue value) := by
        funext other
        by_cases same : other = column
        · subst same
          simp [Record.row]
        · simp [Record.row, Function.update_of_ne same]
      rw [Record.storeAll, List.map_cons, storeAll, ih, updated]

/-- A column holds what it held or what was stored in it. -/
theorem storeAll_column (record : Record) (stored : List (String × Option Int64)) (column : String) :
    record.storeAll stored column = record column ∨ (column, record.storeAll stored column) ∈ stored := by
  induction stored generalizing record with
  | nil => exact .inl rfl
  | cons set rest ih =>
      obtain ⟨first, value⟩ := set
      rw [Record.storeAll]
      rcases ih (Function.update record first value) with kept | member
      · rw [kept]
        by_cases same : column = first
        · subst same
          exact .inr (by simp)
        · exact .inl (Function.update_of_ne same _ _)
      · exact .inr (List.mem_cons_of_mem _ member)

end InTurn

section Written

variable {table : TableId} {name : String} {context : ModifyContext} {g : Gen}

/-- The generator of an UPDATE: it knows the one table. -/
def Single (table : TableId) (name : String) (g : Gen) : Prop := g.aliases = [(table, name)]

/-- Where stoolap and MariaDB both give it a value, the value is the same. -/
def Faithful (table : TableId) (it : Item) (sql : Sql) : Prop :=
  ∀ (stoolap : Engine) (record : Record) v w, it.value (record.fields table) = .ok v →
    sql.eval stoolap (fun _ => record.row) = .ok w → w = integerValue v

/-- The same for a condition. -/
def Decides (table : TableId) (it : Item) (sql : Sql) : Prop :=
  ∀ (stoolap : Engine) (record : Record) v t, it.value (record.fields table) = .ok v →
    sql.eval stoolap (fun _ => record.row) >>= truth = .ok t → t = toTruth v

theorem agrees_single (single : Single table name g) (record : Record) :
    Agrees g (record.fields table) fun _ => record.row := by
  intro f tableAlias known
  rw [single, List.lookup_cons] at known
  split at known
  · rename_i isTable
    simp only [Record.fields, if_pos (beq_iff_eq.mp isTable)]
    rfl
  · cases known

theorem value_of_reached {α : Type} {sound : Bool} {a b : α} (ran : reached sound a = .ok b) : b = a := by
  cases sound with
  | false => cases ran
  | true => exact (Except.ok.inj ran).symm

/-- What holds where the generator's columns agree with a row, holds on every
record of its one table. -/
theorem on_records {α : Type} {it : Item} {x : GenM Sql} {read : Except Fault Value → Except Fault α}
    {sound : (Field → Option Int64) → Bool} {meant : Option Int64 → α}
    (translates : ∀ stoolap row columns g, Agrees g row columns → Yields (· = g) x fun sql =>
      ∀ v, it.value row = .ok v → read (sql.eval stoolap columns) = reached (sound row) (meant v)) :
    Yields (Single table name) x fun sql => ∀ stoolap (record : Record) v w, it.value (record.fields table) = .ok v →
      read (sql.eval stoolap fun _ => record.row) = .ok w → w = meant v := by
  intro g sql last single ran
  have told (stoolap : Engine) (record : Record) :=
    translates stoolap _ _ g (agrees_single single record) g sql last rfl ran
  refine ⟨?_, fun stoolap record v w valueRan evalRan => ?_⟩
  · obtain ⟨rfl, -⟩ := told Engine.reference fun _ => none
    exact single
  · rw [(told stoolap record).2 v valueRan] at evalRan
    exact value_of_reached evalRan

theorem expr_faithful {it : Item} (integer : it.Integer) :
    Yields (Single table name) (expr it) (Faithful table it) :=
  @on_records _ _ _ it (expr it) id it.sound integerValue fun _ _ _ _ agrees => expr_translates agrees integer

theorem condition_decides {it : Item} (integer : it.Integer) :
    Yields (Single table name) (condition it) (Decides table it) :=
  @on_records _ _ _ it (condition it) (· >>= truth) (fun row => (it.argument row).condition) toTruth
    fun _ _ _ _ agrees => condition_translates agrees integer

/-- A value that is checked is the value, where the check does not fail. -/
theorem rangeCheck_faithful {it : Item} {sql : Sql} (least most : Int64) (faithful : Faithful table it sql) :
    Faithful table it (rangeCheck sql least most) := by
  intro stoolap record v w valueRan evalRan
  cases plain : sql.eval stoolap fun _ => record.row with
  | error fault => simp [rangeCheck, Sql.eval, Arms.search, anyOf, plain, bind, Except.bind] at evalRan
  | ok value =>
      have isValue : value = integerValue v := faithful stoolap record v value valueRan plain
      cases v with
      | none =>
          rw [isValue] at plain
          rw [eval_rangeCheck_null plain] at evalRan
          exact (Except.ok.inj evalRan).symm
      | some n =>
          rw [isValue] at plain
          rw [eval_rangeCheck least most plain] at evalRan
          split at evalRan
          · cases evalRan
          · exact (Except.ok.inj evalRan).symm

theorem intCheck_kinds {inv : Gen → Prop} {fl : Field} {v : Item} :
    Yields inv (intCheck fl v) fun check => check = .none ∨ ∃ least most, check = .range least most := by
  unfold intCheck
  refine .ite (fun _ => .throw) fun _ => ?_
  split
  · exact .pure (.inl rfl)
  · exact .ite (fun _ => .throw) fun _ => .pure (.inl rfl)
  · exact .pure (.inr ⟨_, _, rfl⟩)

theorem guarded_single {fl : Field} (error : GuardError) :
    Yields (Single table name) (guarded context fl error) fun _ => True :=
  .ite (fun _ => .throw) fun _ => .read fun _ _ => .ite (fun _ => .throw) fun _ => .change fun _ single => single

theorem cls_of_isInteger {fl : Field} (isInteger : fl.isInteger = true) : fl.cls = .int := by
  simp only [Field.isInteger] at isInteger
  split at isInteger <;> simp_all [Field.cls]

theorem null_faithful (attrs : Attrs) : Faithful table (.null attrs) .null := by
  intro stoolap record v w valueRan evalRan
  cases valueRan
  exact (Except.ok.inj evalRan).symm

theorem assignment_faithful {attrs : Attrs} {fl : Field} {v : Item} (isInteger : fl.isInteger = true)
    (integer : v.Integer) :
    Yields (Single table name) (assignment context (.field attrs (some fl)) fl v)
      fun written => Faithful table v written.1 ∧ Faithful table v written.2 := by
  have target : cls (.field attrs (some fl)) = .int := cls_of_isInteger isInteger
  unfold assignment
  split
  · exact .throw
  · exact .ite (fun _ => .throw) fun _ => .pure ⟨null_faithful _, null_faithful _⟩
  · rw [target]
    refine .ite (fun _ => .throw) fun _ => .ite (fun _ => .throw) fun _ => intCheck_kinds.bind fun check kind => ?_
    rcases kind with rfl | ⟨least, most, rfl⟩
    · exact (expr_faithful integer).bind fun _ faithful => .pure ⟨faithful, faithful⟩
    · exact (guarded_single _).bind fun _ _ => (expr_faithful integer).bind fun _ faithful =>
        .pure ⟨@rangeCheck_faithful table v (.paren _) least most faithful, faithful⟩

/-- An assignment as it is written. -/
def SetAs (table : TableId) (set : Field × Item) (written : String × Sql) : Prop :=
  written.1 = set.1.name ∧ Faithful table set.2 written.2

/-- The test that an assignment changes its column, as it is written. -/
def ChangeAs (table : TableId) (name : String) (set : Field × Item) (written : Sql) : Prop :=
  ∃ stored, written = .compare .isDistinctFrom (.column name set.1.name) stored ∧ Faithful table set.2 stored

theorem setList_faithful {targets values : List Item} (columns : ∀ target ∈ targets, target.Integer)
    (integer : ∀ v ∈ values, v.Integer) :
    Yields (Single table name) (setList context table name targets values) fun written =>
      List.Forall₂ (SetAs table) (setPairs targets values) written.1 ∧
        List.Forall₂ (ChangeAs table name) (setPairs targets values) written.2 := by
  induction targets generalizing values with
  | nil =>
      cases values with
      | nil => exact .pure ⟨.nil, .nil⟩
      | cons => exact .pure ⟨.nil, .nil⟩
  | cons target targets ih =>
      obtain ⟨isInteger, restColumns⟩ := List.forall_mem_cons.mp columns
      cases values with
      | nil => exact .throw
      | cons v values =>
          obtain ⟨first, restInteger⟩ := List.forall_mem_cons.mp integer
          unfold setList
          cases target with
          | field attrs f =>
              cases f with
              | none => exact .throw
              | some fl =>
                  have noted : Yields (Single table name)
                      (modify fun g => { g with assigned := fl :: g.assigned } : GenM PUnit) fun _ => True :=
                    .change fun _ single => single
                  refine .ite (fun _ => .throw) fun _ => (assignment_faithful isInteger first).bind fun written faithful => ?_
                  refine noted.bind fun _ _ => (ih restColumns restInteger).bind fun rest both => .pure ?_
                  exact ⟨.cons ⟨rfl, faithful.1⟩ both.1, .cons ⟨_, rfl, faithful.2⟩ both.2⟩
          | _ => exact .throw

/-- What is written for the WHERE decides as it does. -/
def WhereAs (table : TableId) (filter : Option Item) (written : Option (Item × Sql)) : Prop :=
  written.map Prod.fst = filter ∧ ∀ it sql, written = some (it, sql) → Decides table it sql

theorem whereCondition_decides {filter : Option Item} (integer : ∀ it ∈ filter, it.Integer) :
    Yields (Single table name) (whereCondition filter) (WhereAs table filter) := by
  cases filter with
  | none => exact .pure ⟨rfl, nofun⟩
  | some it =>
      refine (condition_decides (integer it rfl)).bind fun sql decides => .pure ⟨rfl, fun other otherSql same => ?_⟩
      cases same
      exact decides

/-- An UPDATE of integer columns is written from its SET list, the tests that
it changes the row, and its condition. -/
theorem modifyStatement_faithful {sel : ModifySelect} {filter : Option Item} {trustBin : Bool} {after : Gen}
    {tableName : String} {on : Option Item} {outer semiJoin : Bool} {sets : List (String × Sql)}
    {where_ : Option Sql} {count : Option ModifyCount}
    (single : sel.tables = [.mk (.base table tableName) on outer semiJoin])
    (columns : ∀ target ∈ sel.targets, target.Integer) (values : ∀ v ∈ sel.values, v.Integer)
    (filterInteger : ∀ it ∈ filter, it.Integer)
    (ran : modifyStatement context sel filter (newGen trustBin) = .ok ((.update name sets where_, count), after)) :
    InOrder table [] (setPairs sel.targets sel.values) ∧
      (setPairs sel.targets sel.values).length = sel.targets.length ∧
      List.Forall₂ (SetAs table) (setPairs sel.targets sel.values) sets ∧
      ∃ written changes, WhereAs table filter written ∧
        List.Forall₂ (ChangeAs table name) (setPairs sel.targets sel.values) changes ∧
        where_ = updateFilter context.foundRows written changes := by
  unfold modifyStatement at ran
  rw [single] at ran
  obtain ⟨_, named, naming, ran⟩ := bind_ok.mp ran
  have start : named.aliases = [(table, quoteIdent tableName)] ∧ named.assigned = [] ∧ named.viewCols = [] := by
    rw [← modify_ok.mp naming]
    exact ⟨rfl, rfl, rfl⟩
  simp only at ran
  split at ran
  · split at ran
    · exact (throw_ok.mp ran).elim
    · split at ran
      · exact (throw_ok.mp ran).elim
      · obtain ⟨⟨written, changes⟩, assigned, setRan, ran⟩ := bind_ok.mp ran
        obtain ⟨_, cleared, clearing, ran⟩ := bind_ok.mp ran
        obtain ⟨cond, last, conditionRan, ran⟩ := bind_ok.mp ran
        have simple : ∀ v ∈ sel.values, v.Simple := fun v member => simple_of_integer v (values v member)
        obtain ⟨inOrder, length⟩ := setList_inOrder simple ⟨start.2.1, start.2.2⟩ setRan
        obtain ⟨kept, setAs, changeAs⟩ := setList_faithful columns values named _ _ start.1 setRan
        have singleCleared : Single table (quoteIdent tableName) cleared := by
          rw [← modify_ok.mp clearing]
          exact kept
        obtain ⟨-, whereAs⟩ := whereCondition_decides filterInteger cleared cond last singleCleared conditionRan
        split at ran
        · rename_i plain
          obtain ⟨same, -⟩ := pure_ok.mp ran
          cases same
          exact ⟨inOrder, length, setAs, cond, changes, whereAs, changeAs, (if_pos plain).symm⟩
        · rename_i changed
          obtain ⟨same, -⟩ := pure_ok.mp ran
          cases same
          exact ⟨inOrder, length, setAs, cond, changes, whereAs, changeAs, (if_neg changed).symm⟩
  · obtain ⟨written, last, conditionRan, ran⟩ := bind_ok.mp ran
    obtain ⟨same, -⟩ := pure_ok.mp ran
    cases same

end Written

section Rows

variable {table : TableId} {name : String} {stoolap : Engine} {record : Record} {pairs : List (Field × Item)}
  {stored : List (String × Option Int64)}

theorem setValues_stored {sets : List (String × Sql)} {values : List (String × Value)}
    (setAs : List.Forall₂ (SetAs table) pairs sets) (holds : List.Forall₂ (HoldsOld table record) pairs stored)
    (ran : setValues stoolap record.row sets = .ok values) :
    values = stored.map fun set => (set.1, integerValue set.2) := by
  induction setAs generalizing stored values with
  | nil =>
      cases holds
      cases ran
      rfl
  | cons here _ ih =>
      obtain ⟨named, faithful⟩ := here
      cases holds with
      | cons first rest =>
          obtain ⟨storedNamed, valueRan⟩ := first
          obtain ⟨value, evalRan, ran⟩ := ExceptList.bind_ok.mp ran
          obtain ⟨others, othersRan, ran⟩ := ExceptList.bind_ok.mp ran
          cases ran
          rw [faithful stoolap record _ _ valueRan evalRan, ih rest othersRan, named, List.map_cons, storedNamed]

/-- Integers are distinct to stoolap as they are. -/
theorem compareValues_isDistinctFrom (old new : Option Int64) :
    stoolap.compareValues .isDistinctFrom (integerValue old) (integerValue new) = some (decide (new ≠ old)) := by
  cases old with
  | none => cases new <;> simp [Engine.compareValues, integerValue]
  | some old =>
      cases new with
      | none => simp [Engine.compareValues, integerValue]
      | some new =>
          by_cases same : new = old
          · subst same
            simp [Engine.compareValues, Engine.compare, integerValue, Comparison.holds]
          · have differ : old ≠ new := fun equal => same equal.symm
            simp [Engine.compareValues, Engine.compare, integerValue, Comparison.holds, same, differ]

/-- The tests, where stoolap evaluates them: one is TRUE when some value is not
what its column holds. -/
theorem anyOf_changes {changes : List Sql} {t : Truth} (changeAs : List.Forall₂ (ChangeAs table name) pairs changes)
    (holds : List.Forall₂ (HoldsOld table record) pairs stored)
    (ran : anyOf stoolap (fun _ => record.row) changes = .ok t) :
    t = some true ↔ ∃ set ∈ stored, set.2 ≠ record set.1 := by
  induction changeAs generalizing stored t with
  | nil =>
      cases holds
      cases ran
      simp
  | cons here _ ih =>
      obtain ⟨sql, rfl, faithful⟩ := here
      cases holds with
      | cons first rest =>
          obtain ⟨storedNamed, valueRan⟩ := first
          obtain ⟨value, evalRan, ran⟩ := ExceptList.bind_ok.mp ran
          obtain ⟨left, leftRan, ran⟩ := ExceptList.bind_ok.mp ran
          rw [Sql.eval, Sql.eval] at evalRan
          obtain ⟨old, oldRan, evalRan⟩ := ExceptList.bind_ok.mp evalRan
          obtain ⟨new, newRan, evalRan⟩ := ExceptList.bind_ok.mp evalRan
          cases oldRan
          rw [faithful stoolap record _ _ valueRan newRan, Record.row, compareValues_isDistinctFrom] at evalRan
          obtain rfl := ExceptList.pure_ok.mp evalRan
          cases leftRan
          rw [List.exists_mem_cons_iff, storedNamed]
          split at ran
          · rename_i distinct
            cases ran
            exact iff_of_true rfl (.inl (by simpa using distinct))
          · rename_i same
            obtain ⟨right, rightRan, ran⟩ := ExceptList.bind_ok.mp ran
            obtain rfl := ExceptList.pure_ok.mp ran
            rw [Kleene.or_eq_true, ih rest rightRan]
            simp

theorem allOf_first {operand : Sql} {operands : List Sql} {columns : Columns} {t : Truth}
    (ran : allOf stoolap columns (operand :: operands) = .ok t) :
    ∃ first, operand.eval stoolap columns >>= truth = .ok first ∧ (t = some true → first = some true) := by
  obtain ⟨value, evalRan, ran⟩ := ExceptList.bind_ok.mp ran
  obtain ⟨first, truthRan, ran⟩ := ExceptList.bind_ok.mp ran
  refine ⟨first, by rw [evalRan]; exact truthRan, ?_⟩
  split at ran
  · cases ran
    nofun
  · obtain ⟨rest, -, ran⟩ := ExceptList.bind_ok.mp ran
    obtain rfl := ExceptList.pure_ok.mp ran
    exact fun both => (Kleene.and_eq_true.mp both).1

variable {filter : Option Item} {written : Option (Item × Sql)} {changes : List Sql}

theorem takes_ok {sql : Sql} {row : TableRow} {taken : Bool} (ran : takes stoolap (some sql) row = .ok taken) :
    ∃ t, sql.eval stoolap (fun _ => row) >>= truth = .ok t ∧ taken = decide (t = some true) := by
  obtain ⟨value, evalRan, ran⟩ := ExceptList.bind_ok.mp ran
  obtain ⟨t, truthRan, ran⟩ := ExceptList.bind_ok.mp ran
  refine ⟨t, by rw [evalRan]; exact truthRan, (ExceptList.pure_ok.mp ran).symm⟩

/-- Stoolap takes a row that MariaDB does and a test is TRUE for. -/
theorem takes_changed {takesOld taken : Bool} (whereAs : WhereAs table filter written)
    (reference : recordTakes table filter record = .ok takesOld) (nonempty : changes.isEmpty = false)
    (ran : takes stoolap (updateFilter false written changes) record.row = .ok taken) :
    (takesOld = false ∧ taken = false) ∨
      takesOld = true ∧ ∃ t, anyOf stoolap (fun _ => record.row) changes = .ok t ∧ taken = decide (t = some true) := by
  obtain ⟨sameFilter, decides⟩ := whereAs
  rw [updateFilter, nonempty, if_neg (by simp)] at ran
  obtain ⟨t, evalRan, rfl⟩ := takes_ok ran
  have tested (conditionTrue : takes stoolap (written.map Prod.snd) record.row = .ok true) :
      ∃ any, anyOf stoolap (fun _ => record.row) changes = .ok any ∧
        decide (t = some true) = decide (any = some true) := by
    rw [changedFilter_eval conditionTrue] at evalRan
    obtain ⟨value, testsRan, truthRan⟩ := ExceptList.bind_ok.mp evalRan
    obtain ⟨any, anyRan, rfl⟩ := ExceptList.map_ok.mp testsRan
    refine ⟨any, anyRan, ?_⟩
    rcases any with _ | _ <;> cases truthRan <;> rfl
  cases written with
  | none =>
      cases sameFilter
      cases reference
      exact .inr ⟨rfl, tested rfl⟩
  | some condition =>
      obtain ⟨it, sql⟩ := condition
      cases sameFilter
      obtain ⟨v, valueRan, reference⟩ := ExceptList.bind_ok.mp reference
      obtain rfl := ExceptList.pure_ok.mp reference
      obtain ⟨value, filterRan, truthRan⟩ := ExceptList.bind_ok.mp evalRan
      obtain ⟨all, allRan, rfl⟩ := ExceptList.map_ok.mp filterRan
      have sameTruth : all = t := by
        rcases all with _ | _ <;> cases truthRan <;> rfl
      subst sameTruth
      obtain ⟨first, firstRan, firstTrue⟩ := allOf_first allRan
      rw [Sql.eval] at firstRan
      have decided := decides it sql rfl stoolap record v first (evaluated_ok valueRan) firstRan
      subst decided
      by_cases isTrue : toTruth v = some true
      · refine .inr ⟨decide_eq_true isTrue, tested ?_⟩
        rw [isTrue] at firstRan
        exact takes_of_eval (truth_eq_ok.mp firstRan)
      · exact .inl ⟨decide_eq_false isTrue, decide_eq_false fun both => isTrue (firstTrue both)⟩

theorem column_of_holds (holds : List.Forall₂ (HoldsOld table record) pairs stored) {set : String × Option Int64}
    (member : set ∈ stored) : ∃ pair ∈ pairs, HoldsOld table record pair set := by
  induction holds with
  | nil => cases member
  | cons first _ ih =>
      rcases List.mem_cons.mp member with rfl | later
      · exact ⟨_, List.mem_cons_self, first⟩
      · obtain ⟨pair, pairIn, here⟩ := ih later
        exact ⟨pair, List.mem_cons_of_mem _ pairIn, here⟩

theorem holds_of_column (holds : List.Forall₂ (HoldsOld table record) pairs stored) {pair : Field × Item}
    (member : pair ∈ pairs) : ∃ set ∈ stored, HoldsOld table record pair set := by
  induction holds with
  | nil => cases member
  | cons first _ ih =>
      rcases List.mem_cons.mp member with rfl | later
      · exact ⟨_, List.mem_cons_self, first⟩
      · obtain ⟨set, setIn, here⟩ := ih later
        exact ⟨set, List.mem_cons_of_mem _ setIn, here⟩

/-- Some value is not what its column holds. -/
theorem distinct_iff (holds : List.Forall₂ (HoldsOld table record) pairs stored) :
    (∃ set ∈ stored, set.2 ≠ record set.1) ↔
      ∃ pair ∈ pairs, pair.2.value (record.fields table) ≠ .ok (record pair.1.name) := by
  constructor
  · rintro ⟨set, member, differ⟩
    obtain ⟨pair, pairIn, named, valueRan⟩ := column_of_holds holds member
    refine ⟨pair, pairIn, fun same => differ ?_⟩
    rw [valueRan] at same
    rw [named]
    exact Except.ok.inj same
  · rintro ⟨pair, member, differ⟩
    obtain ⟨set, setIn, named, valueRan⟩ := holds_of_column holds member
    refine ⟨set, setIn, fun same => differ ?_⟩
    rw [valueRan, same, named]

/-- The columns the list names tell whether the row changed. -/
theorem storeAll_eq_iff (holds : List.Forall₂ (HoldsOld table record) pairs stored) :
    record.storeAll stored = record ↔
      (pairs.any fun set => record.storeAll stored set.1.name ≠ record set.1.name) = false := by
  constructor
  · intro same
    rw [same, List.any_eq_false]
    simp
  · intro unchanged
    funext column
    rcases storeAll_column record stored column with kept | member
    · exact kept
    · obtain ⟨pair, pairIn, named, -⟩ := column_of_holds holds member
      have same := List.any_eq_false.mp unchanged pair pairIn
      rw [← named] at same
      simpa using same

/-- One row: stoolap leaves it as MariaDB does, and writes it when MariaDB
changes it or it is put back. -/
theorem updateRow_record {sets : List (String × Sql)} {result : Record × Bool} {row : TableRow} {taken : Bool}
    (inOrder : InOrder table [] pairs) (integer : ∀ set ∈ pairs, set.2.Integer) (assigns : pairs ≠ [])
    (setAs : List.Forall₂ (SetAs table) pairs sets) (changeAs : List.Forall₂ (ChangeAs table name) pairs changes)
    (whereAs : WhereAs table filter written) (reference : updateRecord table filter pairs record = .ok result)
    (ran : updateRow stoolap sets (updateFilter false written changes) record.row = .ok (row, taken)) :
    row = result.1.row ∧ (result.2 = true → taken = true) ∧
      (taken = true ∧ result.2 = false ↔ Restored table filter pairs record) := by
  have nonempty : changes.isEmpty = false := by
    cases changeAs with
    | nil => exact (assigns rfl).elim
    | cons => rfl
  obtain ⟨takesOld, oldRan, reference⟩ := ExceptList.bind_ok.mp reference
  obtain ⟨takesNew, newRan, ran⟩ := ExceptList.bind_ok.mp ran
  rcases takes_changed whereAs oldRan nonempty newRan with ⟨rfl, rfl⟩ | ⟨rfl, t, anyRan, rfl⟩
  · rw [if_neg Bool.false_ne_true] at reference ran
    obtain rfl := ExceptList.pure_ok.mp reference
    cases ExceptList.pure_ok.mp ran
    refine ⟨rfl, fun changed => changed, fun both => absurd both.1 Bool.false_ne_true, fun restored => ?_⟩
    rw [restored.1] at oldRan
    cases oldRan
  · rw [if_pos rfl] at reference
    obtain ⟨after, setRan, reference⟩ := ExceptList.bind_ok.mp reference
    obtain rfl := ExceptList.pure_ok.mp reference
    obtain ⟨stored, holds, rfl⟩ := setRecord_atOnce inOrder integer (fun _ _ _ => rfl) setRan
    have tests := anyOf_changes changeAs holds anyRan
    have unchanged := storeAll_eq_iff holds
    by_cases distinct : t = some true
    · rw [if_pos (decide_eq_true distinct)] at ran
      obtain ⟨values, valuesRan, ran⟩ := ExceptList.bind_ok.mp ran
      cases ExceptList.pure_ok.mp ran
      refine ⟨?_, fun _ => rfl, fun both => ⟨oldRan, ?_, (distinct_iff holds).mp (tests.mp distinct)⟩, fun restored => ⟨rfl, ?_⟩⟩
      · rw [row_storeAll, setValues_stored setAs holds valuesRan]
      · rw [setRan, unchanged.mpr both.2]
      · exact unchanged.mp (Except.ok.inj (setRan.symm.trans restored.2.1))
    · rw [if_neg (by simpa using distinct)] at ran
      cases ExceptList.pure_ok.mp ran
      have noTest : ¬ ∃ set ∈ stored, set.2 ≠ record set.1 := fun test => distinct (tests.mpr test)
      have same : record.storeAll stored = record := by
        funext column
        rcases storeAll_column record stored column with kept | member
        · exact kept
        · by_contra differ
          exact noTest ⟨_, member, differ⟩
      refine ⟨by rw [same], fun changed => ?_, fun both => absurd both.1 Bool.false_ne_true, fun restored => ?_⟩
      · rw [unchanged.mp same] at changed
        cases changed
      · exact (noTest ((distinct_iff holds).mpr restored.2.2)).elim

end Rows

section Tables

variable {table : TableId} {name : String} {stoolap : Engine} {pairs : List (Field × Item)} {filter : Option Item}
  {sets : List (String × Sql)} {where_ : Option Sql}

/-- A table's rows side by side, each as `updateRow_record` says. -/
def RowAs (table : TableId) (filter : Option Item) (pairs : List (Field × Item)) (record : Record)
    (result : Record × Bool) (written : TableRow × Bool) : Prop :=
  written.1 = result.1.row ∧ (result.2 = true → written.2 = true) ∧
    (written.2 = true ∧ result.2 = false ↔ Restored table filter pairs record)

/-- What the rows are, the tables are; the counts are the same when no row is
put back. -/
theorem tables_of_rows {records : List Record} {results : List (Record × Bool)} {rows : List (TableRow × Bool)}
    (reference : List.Forall₂ (fun record result => updateRecord table filter pairs record = .ok result) records results)
    (ran : List.Forall₂ (fun row result => updateRow stoolap sets where_ row = .ok result)
      (records.map Record.row) rows)
    (each : ∀ record result written, updateRecord table filter pairs record = .ok result →
      updateRow stoolap sets where_ record.row = .ok written → RowAs table filter pairs record result written) :
    rows.map Prod.fst = (results.map Prod.fst).map Record.row ∧
      results.countP Prod.snd ≤ rows.countP Prod.snd ∧
      (rows.countP Prod.snd = results.countP Prod.snd ↔ ∀ record ∈ records, ¬ Restored table filter pairs record) := by
  induction reference generalizing rows with
  | nil =>
      cases ran
      simp
  | @cons record result records results here _ ih =>
      cases ran with
      | @cons _ written _ rows writtenRan restRan =>
          obtain ⟨sameRows, fewer, sameCounts⟩ := ih restRan
          obtain ⟨row, changed, restored⟩ := each record result written here writtenRan
          refine ⟨?_, ?_, ?_⟩
          · rw [List.map_cons, List.map_cons, List.map_cons, row, sameRows]
          · rw [List.countP_cons, List.countP_cons]
            cases isChanged : result.2 with
            | false => simp; omega
            | true => simp [changed isChanged]; omega
          · rw [List.countP_cons, List.countP_cons, List.forall_mem_cons, ← restored, ← sameCounts]
            cases isChanged : result.2 with
            | false =>
                cases written.2 with
                | false => simp
                | true => simp; omega
            | true => simp [changed isChanged]

theorem setPairs_values {targets values : List Item} (integer : ∀ v ∈ values, v.Integer) :
    ∀ set ∈ setPairs targets values, set.2.Integer := by
  intro set member
  induction targets generalizing values with
  | nil => cases values <;> cases member
  | cons target targets ih =>
      cases values with
      | nil => simp [setPairs] at member
      | cons v values =>
          obtain ⟨first, rest⟩ := List.forall_mem_cons.mp integer
          cases target with
          | field attrs f =>
              cases f with
              | none => simp [setPairs] at member
              | some fl =>
                  rcases List.mem_cons.mp member with rfl | later
                  · exact first
                  · exact ih rest later
          | _ => simp [setPairs] at member

/-- A pushed UPDATE leaves the table as MariaDB's does, and counts the rows
MariaDB counts exactly when it puts no row back. -/
theorem update_counts_iff {trustBin : Bool} {context : ModifyContext} {sel : ModifySelect} {filter : Option Item}
    {name : String} {sets : List (String × Sql)} {where_ : Option Sql} {count : Option ModifyCount}
    {guard : Option ModifyGuard}
    (accepted : genModify trustBin context sel filter = .ok (.update name sets where_, count, guard))
    {table : TableId} {tableName : String} {on : Option Item} {outer semiJoin : Bool}
    (single : sel.tables = [.mk (.base table tableName) on outer semiJoin]) (assigns : sel.targets ≠ [])
    (columns : ∀ target ∈ sel.targets, target.Integer) (values : ∀ v ∈ sel.values, v.Integer)
    (filterInteger : ∀ it ∈ filter, it.Integer) (changedOnly : context.foundRows = false) {stoolap : Engine}
    {records after : List Record} {rows : List TableRow} {affected changed : Nat}
    (reference : updateRecords table filter (setPairs sel.targets sel.values) records = .ok (after, affected))
    (ran : (Statement.update name sets where_).exec stoolap (records.map Record.row) = .ok (rows, changed)) :
    rows = after.map Record.row ∧
      (changed = affected ↔ ∀ record ∈ records, ¬ Restored table filter (setPairs sel.targets sel.values) record) := by
  obtain ⟨⟨⟨statement, counted⟩, last⟩, written, same⟩ := ExceptList.bind_ok.mp accepted
  cases same
  obtain ⟨inOrder, length, setAs, condition, changes, whereAs, changeAs, isFilter⟩ :=
    modifyStatement_faithful single columns values filterInteger written
  rw [changedOnly] at isFilter
  subst isFilter
  have nonempty : setPairs sel.targets sel.values ≠ [] := by
    intro empty
    rw [empty] at length
    exact assigns (List.length_eq_zero_iff.mp length.symm)
  obtain ⟨results, resultsRan, reference⟩ := ExceptList.bind_ok.mp reference
  obtain ⟨written, writtenRan, ran⟩ := ExceptList.bind_ok.mp ran
  cases ExceptList.pure_ok.mp reference
  cases ExceptList.pure_ok.mp ran
  obtain ⟨sameRows, -, sameCounts⟩ := tables_of_rows (ExceptList.mapM_ok.mp resultsRan) (ExceptList.mapM_ok.mp writtenRan)
    fun record result written reference ran =>
      updateRow_record inOrder (setPairs_values values) nonempty setAs changeAs whereAs reference ran
  exact ⟨sameRows, sameCounts⟩

end Tables

def sampleRecord (a b : Option Int64) : Record := fun column => if column = "a" then a else b

/-- `UPDATE t SET b = a, a = 5 WHERE a > 0`: of these rows the first changes. -/
def shiftRecords : List Record := [sampleRecord (some 1) (some 2), sampleRecord (some 5) (some 5), sampleRecord none none]

theorem shift_columns {target : Item} (member : target ∈ shiftUpdate.targets) : target.Integer := by
  simp only [shiftUpdate, List.mem_cons, List.not_mem_nil, or_false] at member
  rcases member with rfl | rfl <;> rfl

theorem shift_values {v : Item} (member : v ∈ shiftUpdate.values) : v.Integer := by
  simp only [shiftUpdate, List.mem_cons, List.not_mem_nil, or_false] at member
  rcases member with rfl | rfl
  · rfl
  · intro unsigned
    cases unsigned

theorem positive_integer : positive.Integer := by
  refine ⟨rfl, by decide, fun named => ?_, rfl, fun unsigned => ?_, trivial⟩
  · cases named
  · cases unsigned

theorem update_counts_iff_shift :
    ∃ sets where_ count guard rows,
      genModify false strictContext shiftUpdate (some positive) = .ok (.update "\"t\"" sets where_, count, guard) ∧
        (Statement.update "\"t\"" sets where_).exec Engine.reference (shiftRecords.map Record.row) = .ok (rows, 1) ∧
        ∀ record ∈ shiftRecords, ¬ Restored 0 (some positive) (setPairs shiftUpdate.targets shiftUpdate.values) record := by
  have filterInteger : ∀ it ∈ some positive, it.Integer := by
    rintro it member
    cases member
    exact positive_integer
  have reference : updateRecords 0 (some positive) (setPairs shiftUpdate.targets shiftUpdate.values) shiftRecords =
      .ok (_, 1) := rfl
  refine ⟨_, _, _, _, _, rfl, rfl, ?_⟩
  exact (@update_counts_iff false strictContext shiftUpdate (some positive) _ _ _ _ _ rfl 0 "t" none false false rfl
    (by decide) (fun _ => shift_columns) (fun _ => shift_values) filterInteger rfl Engine.reference shiftRecords _ _ _ _
    reference rfl).2.mp rfl

/-- `SET a = 1, a = 2`. -/
def twiceUpdate : ModifySelect where
  tables := [.mk (.base 0 "t") none false false]
  targets := [intColumn "a", intColumn "a"]
  values := [.const (intAttrs false) (.int 1), .const (intAttrs false) (.int 2)]
  checkConstraints := false
  updateDefaults := false
  primaryKey := none

/-- Where `a` is 2 already, MariaDB changes no row, and stoolap counts one. -/
theorem assigned_twice_counts :
    ∃ sets where_ count guard rows after,
      genModify false strictContext twiceUpdate none = .ok (.update "\"t\"" sets where_, count, guard) ∧
        (Statement.update "\"t\"" sets where_).exec Engine.reference [(sampleRecord (some 2) none).row] = .ok (rows, 1) ∧
        updateRecords 0 none (setPairs twiceUpdate.targets twiceUpdate.values) [sampleRecord (some 2) none] =
          .ok (after, 0) ∧
        Restored 0 none (setPairs twiceUpdate.targets twiceUpdate.values) (sampleRecord (some 2) none) := by
  refine ⟨_, _, _, _, _, _, rfl, rfl, rfl, rfl, ?_, (intField "a", .const (intAttrs false) (.int 1)), ?_, ?_⟩
  · refine congrArg Except.ok (funext fun column => ?_)
    by_cases isA : column = "a"
    · subst isA
      rfl
    · simp [intField, Function.update_of_ne isA]
  · exact List.mem_cons_self
  · intro same
    cases same

end StoolapMariadb.SqlGen
