import StoolapMariadb.Lib.ExceptList
import StoolapMariadb.SqlGen.Typing

namespace StoolapMariadb.SqlGen

/-! The parts of an accepted UPDATE: each SET value as it is written by itself,
the check around it, and the condition. -/

open StateExcept
open StoolapMariadb.Types (RealType)

/-- What a SET assigns: NULL, or a value with the check it needs. -/
inductive SetValue where
  | null
  | of (value : Sql) (check : Check)

/-- The value without its check. -/
def SetValue.plain : SetValue → Sql
  | .null => .null
  | .of value _ => value

/-- What is assigned. -/
def SetValue.set : SetValue → Sql
  | .null => .null
  | .of value .none => value
  | .of value .plusZero => .arithmetic .add value (.number "0.0")
  | .of value (.range least most) => rangeCheck (.paren value) least most
  | .of value (.length most) => lengthCheck (.paren value) most guardOverflow

/-- What the column is compared with to tell whether it changes. -/
def SetValue.stored : SetValue → Sql
  | .null => .null
  | .of value .none => .paren value
  | .of value .plusZero => .paren (.arithmetic .add value (.number "0.0"))
  | .of value (.range _ _) => .paren value
  | .of value (.length most) => lengthCheck (.paren value) most (.paren value)

/-- The check that the column needs for the value. -/
inductive CheckFor (fl : Field) : Item → Check → Prop where
  | unbounded {v check} (noRange : intRange fl = none) (noLength : RealType.isVarchar fl.realType = false)
      (plain : check = .none ∨ check = .plusZero) : CheckFor fl v check
  | integer {attrs n least most} (bounded : intRange fl = some (least, most)) (fits : least ≤ n ∧ n ≤ most) :
      CheckFor fl (.const attrs (.int n)) .none
  | text {attrs bytes datetime time} (varchar : RealType.isVarchar fl.realType = true)
      (fits : numchars bytes ≤ fl.charLength) :
      CheckFor fl (.const attrs (.string bytes datetime time)) .none
  | range {v least most} (int : cls v = .int) (bounded : intRange fl = some (least, most)) :
      CheckFor fl v (.range least most)
  | length {v} (str : cls v = .str) (varchar : RealType.isVarchar fl.realType = true)
      (small : v.attrs.maxLength ≤ 1048576) : CheckFor fl v (.length fl.charLength)

/-- What the generator writes for assigning the item to the column. -/
inductive Writes (fl : Field) (v : Item) : SetValue → Prop where
  | null (isNull : v.isNull = true) : Writes fl v .null
  | of {value check} (written : ∃ g after, expr v g = .ok (value, after)) (needed : CheckFor fl v check) :
      Writes fl v (.of value check)

/-- A column that is neither a VARCHAR nor an integer of fewer than 64 bits
takes its values as they are. -/
theorem unbounded_of_cls {fl : Field} (other : fl.cls ≠ .int) : intRange fl = none := by
  unfold Field.cls at other
  unfold intRange
  cases realType : fl.realType <;> simp_all

theorem not_varchar_of_cls {fl : Field} (other : fl.cls ≠ .unsafe_) (str : fl.cls ≠ .str) :
    RealType.isVarchar fl.realType = false := by
  unfold Field.cls at other str
  cases realType : fl.realType <;> simp_all [RealType.isVarchar] <;> grind

theorem intCheck_for {fl : Field} {v : Item} {g after : Gen} {check : Check} (int : fl.cls = .int)
    (same : cls v = .int) (ran : intCheck fl v g = .ok (check, after)) : CheckFor fl v check := by
  unfold intCheck at ran
  split at ran
  · exact (throw_ok.mp ran).elim
  · cases bounded : intRange fl with
    | none =>
        simp only [bounded] at ran
        obtain ⟨rfl, -⟩ := pure_ok.mp ran
        exact .unbounded bounded (not_varchar_of_cls (by simp [int]) (by simp [int])) (.inl rfl)
    | some range =>
        obtain ⟨least, most⟩ := range
        have checked (ran : (pure (.range least most) : GenM Check) g = .ok (check, after)) :
            CheckFor fl v check := by
          obtain ⟨rfl, -⟩ := pure_ok.mp ran
          exact .range same bounded
        simp only [bounded] at ran
        cases v with
        | const attrs literal =>
            cases literal with
            | int n =>
                simp only at ran
                split at ran
                · exact (throw_ok.mp ran).elim
                · rename_i fits
                  obtain ⟨rfl, -⟩ := pure_ok.mp ran
                  exact .integer bounded (by simpa [Int64.not_lt] using fits)
            | _ => exact checked ran
        | _ => exact checked ran

theorem realCheck_for {context : ModifyContext} {fl : Field} {v : Item} {g after : Gen} {check : Check}
    (ran : realCheck context fl g = .ok (check, after)) : CheckFor fl v check := by
  unfold realCheck at ran
  split at ran
  · exact (throw_ok.mp ran).elim
  · rename_i double
    have realType : fl.realType = .double := by
      by_contra other
      exact double (by simp [other])
    split at ran
    · exact (throw_ok.mp ran).elim
    · obtain ⟨rfl, -⟩ := pure_ok.mp ran
      exact .unbounded (by simp [intRange, realType]) (by simp [RealType.isVarchar, realType]) (.inr rfl)

theorem strCheck_for {fl : Field} {v : Item} {g after : Gen} {check : Check} (str : fl.cls = .str)
    (same : cls v = .str) (ran : strCheck fl v g = .ok (check, after)) : CheckFor fl v check := by
  have noRange : intRange fl = none := unbounded_of_cls (by simp [str])
  unfold strCheck at ran
  split at ran
  · exact (throw_ok.mp ran).elim
  · split at ran
    · exact (throw_ok.mp ran).elim
    · have checked (ran : (if !RealType.isVarchar fl.realType then fail "text target"
          else if v.attrs.maxLength > 1048576 then fail "value may be large"
          else return .length fl.charLength : GenM Check) g = .ok (check, after)) : CheckFor fl v check := by
        split at ran
        · exact (throw_ok.mp ran).elim
        · rename_i varchar
          split at ran
          · exact (throw_ok.mp ran).elim
          · rename_i small
            obtain ⟨rfl, -⟩ := pure_ok.mp ran
            exact .length same (by simpa using varchar) (by omega)
      cases v with
      | const attrs literal =>
          cases literal with
          | string bytes datetime time =>
              cases varchar : RealType.isVarchar fl.realType with
              | false =>
                  simp only [varchar, if_false, Bool.false_eq_true] at ran
                  split at ran
                  · exact (throw_ok.mp ran).elim
                  · obtain ⟨rfl, -⟩ := pure_ok.mp ran
                    exact .unbounded noRange varchar (.inl rfl)
              | true =>
                  simp only [varchar, if_true] at ran
                  split at ran
                  · exact (throw_ok.mp ran).elim
                  · rename_i fits
                    obtain ⟨rfl, -⟩ := pure_ok.mp ran
                    exact .text varchar (by simpa using fits)
          | _ => exact (throw_ok.mp ran).elim
      | _ => exact checked ran

theorem temporalCheck_for {fl : Field} {v : Item} {g after : Gen} {check : Check} (int : fl.cls ≠ .int)
    (str : fl.cls ≠ .str) (known : fl.cls ≠ .unsafe_) (ran : temporalCheck fl v g = .ok (check, after)) : CheckFor fl v check := by
  unfold temporalCheck at ran
  cases real : v.realItem with
  | field attrs src =>
      cases src with
      | none =>
          rw [real] at ran
          exact (throw_ok.mp ran).elim
      | some src =>
          rw [real] at ran
          simp only at ran
          split at ran
          · exact (throw_ok.mp ran).elim
          · obtain ⟨rfl, -⟩ := pure_ok.mp ran
            exact .unbounded (unbounded_of_cls int) (not_varchar_of_cls known str) (.inl rfl)
  | _ =>
      rw [real] at ran
      exact (throw_ok.mp ran).elim

theorem valueCheck_for {context : ModifyContext} {fl : Field} {v : Item} {g after : Gen} {check : Check}
    (known : fl.cls ≠ .unsafe_) (same : fl.cls = cls v ∨ fl.cls = .real) (ran : valueCheck context fl v fl.cls g = .ok (check, after)) :
    CheckFor fl v check := by
  cases column : fl.cls with
  | int =>
      rw [column] at ran
      exact intCheck_for column (by simpa [column, eq_comm] using same) ran
  | real =>
      rw [column] at ran
      exact realCheck_for ran
  | str =>
      rw [column] at ran
      exact strCheck_for column (by simpa [column, eq_comm] using same) ran
  | unsafe_ => exact (known column).elim
  | datetime | time | tstamp =>
      rw [column] at ran
      exact temporalCheck_for (by simp [column]) (by simp [column]) known ran

/-- The column's class decides what is written for the value. -/
theorem assignment_writes {context : ModifyContext} {attrs : Attrs} {fl : Field} {v : Item} {g after : Gen}
    {value stored : Sql}
    (ran : assignment context (.field attrs (some fl)) fl v g = .ok ((value, stored), after)) :
    ∃ setValue, Writes fl v setValue ∧ value = setValue.set ∧ stored = setValue.stored := by
  have target : cls (.field attrs (some fl)) = fl.cls := rfl
  cases v with
  | param attrs => exact (throw_ok.mp ran).elim
  | null attrs =>
      unfold assignment at ran
      simp only at ran
      split at ran
      · exact (throw_ok.mp ran).elim
      · obtain ⟨same, -⟩ := pure_ok.mp ran
        cases same
        exact ⟨.null, .null rfl, rfl, rfl⟩
  | _ =>
      unfold assignment at ran
      simp only [target] at ran
      split at ran
      · exact (throw_ok.mp ran).elim
      · split at ran
        · exact (throw_ok.mp ran).elim
        · rename_i fits
          obtain ⟨check, middle, chosen, ran⟩ := bind_ok.mp ran
          have needed := valueCheck_for (fun unknown => by simp [unknown] at fits) (by grind) chosen
          cases check with
          | none | plusZero =>
              obtain ⟨plain, last, wrote, ran⟩ := bind_ok.mp ran
              obtain ⟨same, -⟩ := pure_ok.mp ran
              cases same
              exact ⟨_, .of ⟨middle, last, wrote⟩ needed, rfl, rfl⟩
          | range least most | length most =>
              obtain ⟨_, started, -, ran⟩ := bind_ok.mp ran
              obtain ⟨plain, last, wrote, ran⟩ := bind_ok.mp ran
              obtain ⟨same, -⟩ := pure_ok.mp ran
              cases same
              exact ⟨_, .of ⟨started, last, wrote⟩ needed, rfl, rfl⟩

/-- One assignment of an accepted UPDATE. -/
structure Assignment where
  field : Field
  item : Item
  value : SetValue

/-- The test that the assignment changes its column. -/
def Assignment.change (name : String) (assignment : Assignment) : Sql :=
  .compare .isDistinctFrom (.column name assignment.field.name) assignment.value.stored

/-- The WHERE of an UPDATE: with the tests that it changes the row, unless the
client counts the rows found. -/
def updateFilter (foundRows : Bool) (filter : Option (Item × Sql)) (changes : List Sql) : Option Sql :=
  if foundRows || changes.isEmpty then filter.map Prod.snd else some (changedFilter filter changes)

/-- An accepted UPDATE: the table's name, the condition with what is written
for it, and the assignments. -/
structure Update where
  name : String
  filter : Option (Item × Sql)
  assignments : List Assignment

def Update.sets (update : Update) : List (String × Sql) :=
  update.assignments.map fun assignment => (assignment.field.name, assignment.value.set)

def Update.statement (update : Update) (foundRows : Bool) : Statement :=
  .update update.name update.sets
    (updateFilter foundRows update.filter (update.assignments.map (Assignment.change update.name)))

/-- The parts are those of the statement's SET lists. -/
structure Assigns (targets values : List Item) (assignments : List Assignment) : Prop where
  targets : List.Forall₂ (fun target assignment => ∃ attrs, target = .field attrs (some assignment.field))
    targets assignments
  values : assignments.map Assignment.item <+: values
  writes : ∀ assignment ∈ assignments, Writes assignment.field assignment.item assignment.value

/-- The parts are those of the statement: its SET lists and its condition. -/
structure Update.Of (update : Update) (sel : ModifySelect) (filter : Option Item) : Prop
    extends Assigns sel.targets sel.values update.assignments where
  filter : update.filter.map Prod.fst = filter
  condition : ∀ it sql, update.filter = some (it, sql) → ∃ g after, condition it g = .ok (sql, after)

theorem setList_parts {context : ModifyContext} {table : TableId} {name : String} {targets values : List Item}
    {g after : Gen} {sets : List (String × Sql)} {changes : List Sql}
    (ran : setList context table name targets values g = .ok ((sets, changes), after)) :
    ∃ assignments, Assigns targets values assignments ∧
      sets = assignments.map (fun assignment => (assignment.field.name, assignment.value.set)) ∧
      changes = assignments.map (Assignment.change name) := by
  induction targets generalizing values g after sets changes with
  | nil =>
      obtain ⟨same, -⟩ := pure_ok.mp ran
      cases same
      exact ⟨[], ⟨.nil, List.nil_prefix, by simp⟩, rfl, rfl⟩
  | cons target targets ih =>
      cases values with
      | nil => exact (throw_ok.mp ran).elim
      | cons v values =>
          unfold setList at ran
          cases target with
          | field attrs f =>
              cases f with
              | none => exact (throw_ok.mp ran).elim
              | some fl =>
                  simp only at ran
                  split at ran
                  · exact (throw_ok.mp ran).elim
                  · obtain ⟨⟨value, stored⟩, middle, assigned, ran⟩ := bind_ok.mp ran
                    obtain ⟨_, noted, -, ran⟩ := bind_ok.mp ran
                    obtain ⟨⟨sets, changes⟩, last, rest, ran⟩ := bind_ok.mp ran
                    obtain ⟨same, -⟩ := pure_ok.mp ran
                    cases same
                    obtain ⟨setValue, writes, rfl, rfl⟩ := assignment_writes assigned
                    obtain ⟨assignments, assigns, rfl, rfl⟩ := ih rest
                    refine ⟨⟨fl, v, setValue⟩ :: assignments, ⟨?_, ?_, ?_⟩, rfl, rfl⟩
                    · exact .cons ⟨attrs, rfl⟩ assigns.targets
                    · exact (List.prefix_cons_inj v).mpr assigns.values
                    · exact List.forall_mem_cons.mpr ⟨writes, assigns.writes⟩
          | _ => exact (throw_ok.mp ran).elim

/-- What is written for the WHERE. -/
def whereCondition (filter : Option Item) : GenM (Option (Item × Sql)) :=
  match filter with
  | none => return none
  | some it => return some (it, ← condition it)

theorem whereCondition_written {filter : Option Item} {g after : Gen} {written : Option (Item × Sql)}
    (ran : whereCondition filter g = .ok (written, after)) :
    written.map Prod.fst = filter ∧
      ∀ it sql, written = some (it, sql) → ∃ g after, condition it g = .ok (sql, after) := by
  cases filter with
  | none =>
      obtain ⟨rfl, -⟩ := pure_ok.mp ran
      exact ⟨rfl, nofun⟩
  | some it =>
      obtain ⟨sql, middle, wrote, ran⟩ := bind_ok.mp ran
      obtain ⟨rfl, -⟩ := pure_ok.mp ran
      refine ⟨rfl, fun other otherSql same => ?_⟩
      cases same
      exact ⟨g, middle, wrote⟩

theorem modifyStatement_parts {context : ModifyContext} {sel : ModifySelect} {filter : Option Item} {g after : Gen}
    {name : String} {sets : List (String × Sql)} {where_ : Option Sql} {count : Option ModifyCount}
    (ran : modifyStatement context sel filter g = .ok ((.update name sets where_, count), after)) :
    ∃ update : Update, update.Of sel filter ∧ .update name sets where_ = update.statement context.foundRows := by
  unfold modifyStatement at ran
  cases tables : sel.tables with
  | nil =>
      rw [tables] at ran
      exact (throw_ok.mp ran).elim
  | cons first rest =>
      obtain ⟨kind, on, outer, semiJoin⟩ := first
      cases kind with
      | base id tableName =>
          cases rest with
          | cons => rw [tables] at ran; exact (throw_ok.mp ran).elim
          | nil =>
              rw [tables] at ran
              obtain ⟨_, named, -, ran⟩ := bind_ok.mp ran
              simp only at ran
              split at ran
              · split at ran
                · exact (throw_ok.mp ran).elim
                · split at ran
                  · exact (throw_ok.mp ran).elim
                  · obtain ⟨⟨sets, changes⟩, assigned, setRan, ran⟩ := bind_ok.mp ran
                    obtain ⟨_, cleared, -, ran⟩ := bind_ok.mp ran
                    obtain ⟨written, last, conditionRan, ran⟩ := bind_ok.mp ran
                    obtain ⟨assignments, assigns, rfl, rfl⟩ := setList_parts setRan
                    obtain ⟨same, wrote⟩ := @whereCondition_written filter _ _ _ conditionRan
                    refine ⟨⟨quoteIdent tableName, written, assignments⟩, ⟨assigns, same, wrote⟩, ?_⟩
                    simp only [Update.statement, updateFilter]
                    split at ran
                    · rename_i plain
                      obtain ⟨same, -⟩ := pure_ok.mp ran
                      cases same
                      rw [if_pos plain]
                      rfl
                    · rename_i changed
                      obtain ⟨same, -⟩ := pure_ok.mp ran
                      cases same
                      rw [if_neg changed]
                      rfl
              · obtain ⟨written, last, conditionRan, ran⟩ := bind_ok.mp ran
                obtain ⟨same, -⟩ := pure_ok.mp ran
                cases same
      | _ => rw [tables] at ran; exact (throw_ok.mp ran).elim

/-- Every accepted UPDATE is written from its parts. -/
theorem genModify_parts {trustBin : Bool} {context : ModifyContext} {sel : ModifySelect} {filter : Option Item}
    {name : String} {sets : List (String × Sql)} {where_ : Option Sql} {count : Option ModifyCount}
    {guard : Option ModifyGuard}
    (accepted : genModify trustBin context sel filter = .ok (.update name sets where_, count, guard)) :
    ∃ update : Update, update.Of sel filter ∧ .update name sets where_ = update.statement context.foundRows := by
  obtain ⟨⟨⟨statement, rows⟩, after⟩, ran, same⟩ := ExceptList.bind_ok.mp accepted
  cases same
  exact modifyStatement_parts ran

end StoolapMariadb.SqlGen
