import StoolapMariadb.SqlGen.Select

namespace StoolapMariadb.SqlGen

/-! The names the generator gives: aliases to tables, and texts to the columns of
derived tables. What is written for an item gives names only to what stands in
it. -/

open StateExcept
open StoolapMariadb.Types (Charset)

/-- What a name is given to. -/
inductive Name where
  | table (id : TableId)
  | column (id : ItemId)

def columnNames (columns : List DerivedColumn) : List Name :=
  columns.filterMap fun column => column.item.map Name.column

mutual

/-- What stands in an item and is named when it is written. -/
def Item.names : Item → List Name
  | .field _ _ | .const _ _ | .null _ | .param _ | .other _ => []
  | .ref _ _ _ target => optionNames target
  | .func _ _ _ args | .cond _ _ args | .sum _ _ args => itemsNames args
  | .window _ _ args partition order _ => itemsNames args ++ ordersNames partition ++ ordersNames order
  | .subselect _ _ left unit => optionNames left ++ unit.names

def optionNames : Option Item → List Name
  | none => []
  | some it => it.names

def itemsNames : List Item → List Name
  | [] => []
  | it :: items => it.names ++ itemsNames items

def ordersNames : List Order → List Name
  | [] => []
  | .mk it _ :: keys => it.names ++ ordersNames keys

def Select.names : Select → List Name
  | .mk _ tables items filter groupList having orderList =>
      tablesNames tables ++ itemsNames items ++ optionNames filter ++ ordersNames groupList ++ optionNames having ++
        ordersNames orderList

def selectsNames : List Select → List Name
  | [] => []
  | select :: selects => select.names ++ selectsNames selects

def SelectUnit.names : SelectUnit → List Name
  | .mk selects _ _ _ _ _ _ => selectsNames selects

def tablesNames : List TableList → List Name
  | [] => []
  | .mk kind on _ _ :: tables => kind.names ++ optionNames on ++ tablesNames tables

def TableKind.names : TableKind → List Name
  | .base id _ => [.table id]
  | .derived id unit columns _ => .table id :: columnNames (columns.getD []) ++ unit.names
  | .nested tables => tablesNames tables
  | .unopened => []

end

/-- The letter before an alias's number: a table's, or a subquery's. -/
def IsLetter (letter : String) : Prop := letter = "t" ∨ letter = "d"

/-- A table has its alias, and the columns of a subquery their texts. -/
def Gen.named (letter : String) (id : TableId) (columns : List DerivedColumn) (g : Gen) : Gen :=
  let tableAlias := letter ++ toString g.nextAlias
  { g with nextAlias := g.nextAlias + 1, aliases := (id, tableAlias) :: g.aliases,
           viewCols := (columns.filterMap fun column => column.item.map fun item =>
             (item, tableAlias, column.name)).reverse ++ g.viewCols }

/-- An invariant that giving these names keeps. -/
structure Keeping (names : List Name) (inv : Gen → Prop) : Prop where
  lists : ∀ g flag, inv g → inv { g with existsList := flag }
  named : ∀ g letter id columns, IsLetter letter → .table id ∈ names → columnNames columns ⊆ names → inv g →
    inv (g.named letter id columns)

theorem baseRef_eq (id : TableId) (name : String) (g : Gen) :
    baseRef id name g = .ok (.table name ("t" ++ toString g.nextAlias), g.named "t" id []) := rfl

/-- Neither what is written for a child nor its query breaks the invariant. -/
structure Child.Steady (inv : Gen → Prop) (it : Child) : Prop where
  node : StateExcept.Steady inv it.node
  query : StateExcept.Steady inv it.query

section Parts

variable {inv : Gen → Prop} {args : List Child}

theorem Child.Steady.condition {it : Child} (steady : it.Steady inv) : StateExcept.Steady inv it.condition :=
  .ite steady.node .throw

theorem Child.Steady.expr {it : Child} (steady : it.Steady inv) : StateExcept.Steady inv it.expr :=
  .ite steady.node (steady.node.bind fun _ => .pure)

theorem Child.Steady.branch {it : Child} (steady : it.Steady inv) (result : Cls) :
    StateExcept.Steady inv (it.branch result) :=
  .ite steady.expr (steady.expr.bind fun _ => .pure)

theorem each_steady {write : List Child → GenM (List Sql)} {one : Child → GenM Sql} (nil : write [] = pure [])
    (cons : ∀ arg args, write (arg :: args) = do return (← one arg) :: (← write args))
    (steady : ∀ arg ∈ args, Steady inv (one arg)) : Steady inv (write args) := by
  induction args with
  | nil =>
      rw [nil]
      exact .pure
  | cons arg args ih =>
      obtain ⟨first, rest⟩ := List.forall_mem_cons.mp steady
      rw [cons]
      exact first.bind fun _ => (ih rest).bind fun _ => .pure

theorem argsCsv_steady (steady : ∀ arg ∈ args, arg.Steady inv) : Steady inv (argsCsv args) :=
  each_steady rfl (fun _ _ => rfl) fun arg member => (steady arg member).expr

theorem conditions_steady (steady : ∀ arg ∈ args, arg.Steady inv) : Steady inv (conditions args) :=
  each_steady rfl (fun _ _ => rfl) fun arg member => (steady arg member).condition

theorem branchArgs_steady (result : Cls) (steady : ∀ arg ∈ args, arg.Steady inv) :
    Steady inv (branchArgs result args) :=
  each_steady rfl (fun _ _ => rfl) fun arg member => (steady arg member).branch result

theorem literal_steady (it : Item) : Steady inv (literal it) := by
  induction it using literal.induct with
  | case1 attrs => exact .pure
  | case2 attrs value =>
      cases value with
      | int value => exact .ite .throw .pure
      | real finite digits => exact .ite .throw .pure
      | decimal digits => exact .ite .throw .pure
      | string bytes datetime time => exact .ite .throw .pure
      | temporal isTime packed zeroPart => exact .throw
  | case3 attrs type id target ih => exact ih
  | case4 it noNull noConst noRef =>
      unfold literal
      split
      · exact absurd rfl (noNull _)
      · exact absurd rfl (noConst _ _)
      · exact absurd rfl (noRef _ _ _ _)
      · exact .throw

theorem field_steady (f : Option Field) : Steady inv (field f) := by
  cases f with
  | none => exact .throw
  | some f =>
      refine .read fun g => .ite .throw ?_
      split
      · exact .throw
      · exact .pure

theorem reference_steady (type : RefType) (id : ItemId) {target : Option Child} (steady : ∀ it ∈ target, it.Steady inv) :
    Steady inv (reference type id target) := by
  refine .ite .throw ?_
  cases target with
  | none => exact .throw
  | some it =>
      refine .read fun g => ?_
      split
      · exact .pure
      · exact (steady it rfl).expr

theorem compare_steady (op : Comparison) (handler : HandlerType) (collation : Option Charset) {x y : Child}
    (first : x.Steady inv) (second : y.Steady inv) : Steady inv (compare op handler collation x y) := by
  unfold compare
  split
  · exact first.expr.bind fun _ => .pure
  · exact second.expr.bind fun _ => .pure
  · exact .read fun _ => .ite (first.expr.bind fun _ => second.expr.bind fun _ => .pure) .throw

theorem between_steady (negated : Bool) (collation : Option Charset) {x low high : Child} (steady : x.Steady inv)
    (lowSteady : low.Steady inv) (highSteady : high.Steady inv) :
    Steady inv (between negated collation x low high) := by
  unfold between
  split
  · exact steady.expr.bind fun _ => .pure
  · exact .read fun _ => .ite (steady.expr.bind fun _ => lowSteady.expr.bind fun _ => highSteady.expr.bind fun _ => .pure)
      .throw

theorem inValues_steady (negated : Bool) (collation : Option Charset) {x : Child} {list : List Child}
    (first : x.Steady inv) (rest : ∀ arg ∈ list, arg.Steady inv) :
    Steady inv (inValues negated collation x list) :=
  .read fun _ => .ite .throw (.ite (first.expr.bind fun _ => (argsCsv_steady rest).bind fun _ => .pure) .throw)

theorem like_steady (negated : Bool) (collation : Option Charset) (escape : Char) {x : Child} (pattern : Child)
    (steady : x.Steady inv) : Steady inv (like negated collation escape x pattern) :=
  .read fun _ => .ite .throw (.ite .throw (steady.expr.bind fun _ => (literal_steady _).bind fun _ => .pure))

theorem arms_steady {test : Child → GenM Sql} (result : Cls) {otherwise : Option Child} {whens values : List Child}
    (tests : ∀ when ∈ whens, Steady inv (test when)) (branches : ∀ value ∈ values, value.Steady inv)
    (last : ∀ value ∈ otherwise, value.Steady inv) :
    Steady inv (arms test result otherwise whens values) := by
  have elseSteady : Steady inv (elseArm result otherwise) := by
    cases otherwise with
    | none => exact .pure
    | some value => exact ((last value rfl).branch result).bind fun _ => .pure
  induction whens generalizing values with
  | nil => exact elseSteady
  | cons when whens ih =>
      cases values with
      | nil => exact elseSteady
      | cons value values =>
          obtain ⟨firstTest, restTests⟩ := List.forall_mem_cons.mp tests
          obtain ⟨firstValue, restValues⟩ := List.forall_mem_cons.mp branches
          exact firstTest.bind fun _ => (firstValue.branch result).bind fun _ =>
            (ih restTests restValues).bind fun _ => .pure

/-- The WHENs and values of a CASE are among its arguments, and so is its ELSE. -/
theorem caseArms_steady {test : Child → GenM Sql} (result : Cls)
    (tests : ∀ when ∈ args, Steady inv (test when)) (steady : ∀ arg ∈ args, arg.Steady inv) :
    Steady inv (arms test result (if args.length % 2 = 1 then args.getLast? else none)
      (args.take (args.length / 2)) ((args.drop (args.length / 2)).take (args.length / 2))) := by
  refine arms_steady result (fun when member => tests when (List.mem_of_mem_take member))
    (fun value member => steady value (List.mem_of_mem_drop (List.mem_of_mem_take member))) fun value member => ?_
  split at member
  · exact steady value (List.mem_of_getLast? member)
  · cases member

theorem caseSearched_steady (f : Item) (steady : ∀ arg ∈ args, arg.Steady inv) :
    Steady inv (caseSearched f args) :=
  .ite .throw ((caseArms_steady _ (fun when member => (steady when member).condition) steady).bind fun _ => .pure)

theorem caseSimple_steady (f : Item) (collation : Option Charset) {subject : Child} (first : subject.Steady inv)
    (rest : ∀ arg ∈ args, arg.Steady inv) : Steady inv (caseSimple f collation subject args) :=
  .read fun _ => .ite .throw (.ite .throw (first.expr.bind fun _ =>
    (caseArms_steady _ (fun when member => (rest when member).expr) rest).bind fun _ => .pure))

theorem namedFunc_steady (f : Item) (name : FuncName) (steady : ∀ arg ∈ args, arg.Steady inv) :
    Steady inv (namedFunc f name args) := by
  have two (op : Arithmetic) : Steady inv (arithmetic f op args) := by
    unfold arithmetic
    split
    · exact .ite .throw ((steady _ (by simp)).expr.bind fun _ => (steady _ (by simp)).expr.bind fun _ => .pure)
    · exact .throw
  have compared {x y : Child} (first : x.Steady inv) (second : y.Steady inv) : Steady inv (nullif x y) :=
    .read fun _ => .ite .throw ((argsCsv_steady (by simpa using ⟨first, second⟩)).bind fun _ => .pure)
  cases name with
  | plus | minus | mul | div => exact two _
  | abs =>
      unfold namedFunc abs
      dsimp only
      split
      · exact .ite .throw ((steady _ (by simp)).expr.bind fun _ => .pure)
      · exact .throw
  | coalesce | ifnull => exact .ite .throw ((branchArgs_steady _ steady).bind fun _ => .pure)
  | nullif =>
      unfold namedFunc
      dsimp only
      split
      · exact compared (steady _ (by simp)) (steady _ (by simp))
      · exact compared (steady _ (by simp)) (steady _ (by simp))
      · exact .throw
  | ifFunc =>
      unfold namedFunc ifFunc
      dsimp only
      split
      · exact .ite .throw ((steady _ (by simp)).condition.bind fun _ => ((steady _ (by simp)).branch _).bind fun _ =>
          ((steady _ (by simp)).branch _).bind fun _ => .pure)
      · exact .throw
  | charLength =>
      unfold namedFunc charLength
      dsimp only
      split
      · exact .ite .throw ((steady _ (by simp)).expr.bind fun _ => .pure)
      · exact .throw
  | concat => exact .ite ((argsCsv_steady steady).bind fun _ => .pure) .throw
  | other => exact .throw

theorem sum_steady (func : SumFunc) (overWindow : Bool) (steady : ∀ arg ∈ args, arg.Steady inv) :
    Steady inv (sum func args overWindow) := by
  have aggregate {x : Child} (aggregate : Aggregate) (distinct : Bool) (member : x ∈ args) :
      Steady inv (do return Sql.aggregate aggregate distinct (← x.expr)) :=
    (steady x member).expr.bind fun _ => .pure
  refine .read fun g => ?_
  split
  · exact .ite .pure (aggregate _ _ (by simp))
  · exact .throw
  · exact .ite .throw (aggregate _ _ (by simp))
  · exact .throw
  · exact .ite .throw (aggregate _ _ (by simp))
  · exact .throw
  · exact .ite .throw (.ite .throw (aggregate _ _ (by simp)))
  · exact .throw
  · exact .ite .throw (aggregate _ _ (by simp))
  · exact .throw
  · exact .ite .throw (aggregate _ _ (by simp))
  · exact .ite .throw (aggregate _ _ (by simp))
  · exact .throw
  · exact .throw
  · exact .throw

theorem orderList_steady (directions : Bool) {keys : List OrderChild} (steady : ∀ key ∈ keys, key.child.Steady inv) :
    Steady inv (orderList directions keys) := by
  induction keys with
  | nil => exact .pure
  | cons key keys ih =>
      obtain ⟨first, rest⟩ := List.forall_mem_cons.mp steady
      exact .read fun _ => .ite .throw (first.expr.bind fun _ => (ih rest).bind fun _ => .pure)

theorem window_steady (func : SumFunc) {partition order : List OrderChild} (frame : Option Frame)
    (steady : ∀ arg ∈ args, arg.Steady inv) (partitioned : ∀ key ∈ partition, key.child.Steady inv)
    (ordered : ∀ key ∈ order, key.child.Steady inv) :
    Steady inv (window func args partition order frame) := by
  have function : Steady inv (windowFunction func args frame) := by
    unfold windowFunction
    split
    · exact .pure
    · exact .pure
    · exact .pure
    · exact .ite .throw ((argsCsv_steady steady).bind fun _ => .pure)
    · exact .ite .throw ((argsCsv_steady steady).bind fun _ => .pure)
    · exact .ite .throw ((sum_steady func true steady).bind fun _ => .pure)
  refine function.bind fun result => (orderList_steady false partitioned).bind fun _ =>
    (orderList_steady true ordered).bind fun _ => ?_
  split
  · exact .ite .throw ((frameBound_any _).steady.bind fun _ => (frameBound_any _).steady.bind fun _ => .pure)
  · exact .pure

end Parts

section Subqueries

variable {names : List Name} {inv : Gen → Prop} {args : List Child}

theorem inSubquery_steady {left : Option Child} (unit : SelectUnit) {query : GenM Query}
    (steady : ∀ it ∈ left, it.Steady inv) (inside : Steady inv query) : Steady inv (inSubquery left unit query) := by
  cases left with
  | none => exact .throw
  | some left =>
      exact .ite .throw (.ite .throw (.read fun _ => (checkColumns_any _ _ _).steady.bind fun _ =>
        (steady left rfl).expr.bind fun _ => inside.bind fun _ => .pure))

theorem existsSubquery_steady (keeping : Keeping names inv) {query : GenM Query} (inside : Steady inv query) :
    Steady inv (existsSubquery query) :=
  (Steady.change fun g => keeping.lists g true).bind fun _ => inside.bind fun _ => .pure

theorem inOptimizer_steady (keeping : Keeping names inv) (steady : ∀ arg ∈ args, arg.Steady inv) :
    Steady inv (inOptimizer args) := by
  unfold inOptimizer
  split
  · rename_i left right
    have leftSteady : ∀ it ∈ some left, it.Steady inv := by
      rintro _ ⟨⟩
      exact steady left (by simp)
    have inside := (steady right (by simp)).query
    split
    · rename_i type _ unit _
      cases type with
      | existsSubs => exact existsSubquery_steady keeping inside
      | inSubs => exact inSubquery_steady unit leftSteady inside
      | singlerowSubs => exact .throw
      | other => exact .throw
    · exact .throw
  · exact .throw

theorem subselect_steady (keeping : Keeping names inv) (type : SubsType) {left : Option Child} (unit : SelectUnit)
    {query : GenM Query} (steady : ∀ it ∈ left, it.Steady inv) (inside : Steady inv query) :
    Steady inv (subselect type left unit query) := by
  cases type with
  | singlerowSubs => exact inside.bind fun _ => .pure
  | existsSubs => exact existsSubquery_steady keeping inside
  | inSubs => exact inSubquery_steady unit steady inside
  | other => exact .throw

theorem func_steady (keeping : Keeping names inv) (f : Item) (variant : Bool) (type : FuncType)
    (steady : ∀ arg ∈ args, arg.Steady inv) : Steady inv (func f variant type args) := by
  refine .ite .throw ?_
  split
  · exact compare_steady _ _ _ (steady _ (by simp)) (steady _ (by simp))
  · exact .throw
  · exact .throw
  · exact (steady _ (by simp)).expr.bind fun _ => .pure
  · exact .throw
  · exact (steady _ (by simp)).condition.bind fun _ => .pure
  · exact .throw
  · exact between_steady _ _ (steady _ (by simp)) (steady _ (by simp)) (steady _ (by simp))
  · exact .throw
  · exact inValues_steady _ _ (steady _ (by simp)) fun arg member => steady arg (List.mem_cons_of_mem _ member)
  · exact .throw
  · exact like_steady _ _ _ _ (steady _ (by simp))
  · exact .throw
  · exact inOptimizer_steady keeping steady
  · exact .ite .throw ((steady _ (by simp)).expr.bind fun _ => .pure)
  · exact .throw
  · exact caseSearched_steady f steady
  · exact caseSimple_steady f _ (steady _ (by simp)) fun arg member => steady arg (List.mem_cons_of_mem _ member)
  · exact .throw
  · exact namedFunc_steady f _ steady

theorem cond_steady (type : CondType) (steady : ∀ arg ∈ args, arg.Steady inv) : Steady inv (cond type args) := by
  have connective : Steady inv type.connective := by
    cases type with
    | and | or => exact .pure
    | other => exact .throw
  exact connective.bind fun _ => .ite .throw ((conditions_steady steady).bind fun _ => .pure)

end Subqueries

structure TableChild.Steady (inv : Gen → Prop) (t : TableChild) : Prop where
  on : ∀ it ∈ t.on, it.Steady inv
  joinList : Yields inv t.joinList fun result => ∀ it ∈ result.2, it.Steady inv
  tableRef : Yields inv t.tableRef fun result => ∀ it ∈ result.2, it.Steady inv

structure SelectChild.Steady (inv : Gen → Prop) (parts : SelectChild) : Prop where
  from_ : Yields inv parts.from_ fun result => ∀ it ∈ result.2, it.Steady inv
  items : ∀ it ∈ parts.items, it.Steady inv
  filter : ∀ it ∈ parts.filter, it.Steady inv
  group : ∀ key ∈ parts.group, key.child.Steady inv
  having : ∀ it ∈ parts.having, it.Steady inv
  order : ∀ key ∈ parts.order, key.child.Steady inv

section Selects

variable {names : List Name} {inv : Gen → Prop}

theorem optionalCondition_steady {it : Option Child} (steady : ∀ child ∈ it, child.Steady inv) :
    Steady inv (optionalCondition it) := by
  cases it with
  | none => exact .pure
  | some child => exact (steady child rfl).condition.bind fun _ => .pure

theorem joinTables_steady (first : Bool) {tables : List TableChild} (steady : ∀ t ∈ tables, t.Steady inv) :
    Yields inv (joinTables first tables) fun result => ∀ it ∈ result.2, it.Steady inv := by
  induction tables generalizing first with
  | nil => exact .pure nofun
  | cons t tables ih =>
      obtain ⟨here, rest⟩ := List.forall_mem_cons.mp steady
      have later := ih false rest
      refine .ite (fun _ => .throw) fun _ => .ite (fun _ => .throw) fun _ => .ite (fun _ => ?_) fun _ => ?_
      · exact here.joinList.bind fun _ merged => later.bind fun _ others =>
          .pure (List.forall_mem_append.mpr ⟨merged, others⟩)
      · refine here.tableRef.bind fun result merged => ?_
        obtain ⟨source, moved⟩ := result
        dsimp only
        split
        · rename_i on isOn
          exact .ite (fun _ => .throw) fun _ => (here.on on isOn).condition.yields.bind fun _ _ =>
            (optionalCondition_steady merged).yields.bind fun _ _ => later.bind fun _ others => .pure others
        · exact .ite (fun _ => .throw) fun _ => later.bind fun _ others =>
            .pure (List.forall_mem_append.mpr ⟨fun it member => merged it (Option.mem_toList.mp member), others⟩)

theorem joinList_steady {tables : List TableChild} (steady : ∀ t ∈ tables, t.Steady inv) :
    Yields inv (joinList tables) fun result => ∀ it ∈ result.2, it.Steady inv :=
  .ite (fun _ => .throw) fun _ => joinTables_steady true fun t member => steady t (List.mem_reverse.mp member)

theorem baseRef_steady (keeping : Keeping names inv) {id : TableId} (name : String) (named : .table id ∈ names) :
    Steady inv (baseRef id name) := by
  intro g source last start ran
  rw [baseRef_eq] at ran
  cases ran
  exact keeping.named g "t" id [] (.inl rfl) named (List.nil_subset _) start

/-- A merged table names its base table. -/
theorem mergeableBase_some {aliases : List (TableId × String)} {outerInner recursive : Bool} {selects : List Select}
    {base : TableId} {name : String} (found : mergeableBase aliases outerInner recursive selects = some (base, name)) :
    ∃ flags semiJoin items filter groupList having orderList rest,
      selects = .mk flags [.mk (.base base name) none false semiJoin] items filter groupList having orderList :: rest ∧
        flags.mergeable = true ∧ (outerInner = true → ∀ it ∈ items, it.realItem.isField = true) := by
  unfold mergeableBase at found
  split at found
  · rename_i flags id tableName semiJoin items filter groupList having orderList rest
    split at found
    · cases found
    · rename_i usable
      split at found
      · cases found
      · rename_i fields
        split at found
        · cases found
        · cases found
          refine ⟨flags, semiJoin, items, filter, groupList, having, orderList, rest, rfl, ?_, fun inner it member => ?_⟩
          · cases mergeable : flags.mergeable with
            | true => rfl
            | false => simp [mergeable] at usable
          · have all : items.all (fun it => it.realItem.isField) = true := by simpa [inner] using fields
            exact List.all_eq_true.mp all it member
  · cases found

theorem mergeableBase_named {aliases : List (TableId × String)} {outerInner recursive : Bool} {selects : List Select}
    {base : TableId} {name : String} (found : mergeableBase aliases outerInner recursive selects = some (base, name)) :
    .table base ∈ selectsNames selects := by
  obtain ⟨flags, semiJoin, items, filter, groupList, having, orderList, rest, rfl, -⟩ := mergeableBase_some found
  simp [selectsNames, Select.names, tablesNames, TableKind.names]

/-- A derived table is merged, or is a subquery that is written after it and its
columns have their names. -/
theorem derivedRef_ok {id : TableId} {selects : List Select} {recursive outerInner : Bool}
    {columns : Option (List DerivedColumn)} {filter : Option Child} {unit : Option (List String) → GenM Query}
    {g last : Gen} {result : Source × Option Child}
    (ran : derivedRef id selects recursive outerInner columns filter unit g = .ok (result, last)) :
    (∃ base name, mergeableBase g.aliases outerInner recursive selects = some (base, name) ∧
      result = (.table name ("t" ++ toString g.nextAlias), filter) ∧ last = g.named "t" base []) ∨
    ∃ known query, columns = some known ∧
      unit (some (known.map DerivedColumn.name)) (g.named "d" id known) = .ok (query, last) ∧
        result = (.derived query ("d" ++ toString g.nextAlias), none) := by
  unfold derivedRef at ran
  obtain ⟨state, started, read, ran⟩ := bind_ok.mp ran
  obtain ⟨rfl, rfl⟩ := get_ok.mp read
  cases found : mergeableBase g.aliases outerInner recursive selects with
  | some base =>
      obtain ⟨base, name⟩ := base
      simp only [found] at ran
      obtain ⟨source, after, based, ran⟩ := bind_ok.mp ran
      obtain ⟨rfl, rfl⟩ := pure_ok.mp ran
      rw [baseRef_eq] at based
      cases based
      exact .inl ⟨base, name, rfl, rfl, rfl⟩
  | none =>
      simp only [found] at ran
      cases columns with
      | none => exact (throw_ok.mp ran).elim
      | some known =>
          obtain ⟨state, started, read, ran⟩ := bind_ok.mp ran
          obtain ⟨rfl, rfl⟩ := get_ok.mp read
          obtain ⟨_, noted, note, ran⟩ := bind_ok.mp ran
          obtain rfl := modify_ok.mp note
          obtain ⟨query, after, wrote, ran⟩ := bind_ok.mp ran
          obtain ⟨rfl, rfl⟩ := pure_ok.mp ran
          exact .inr ⟨known, query, rfl, wrote, rfl⟩

theorem derivedRef_steady (keeping : Keeping names inv) {id : TableId} {selects : List Select}
    (recursive outerInner : Bool) {columns : Option (List DerivedColumn)} {filter : Option Child} {unit : Option (List String) → GenM Query}
    (table : .table id ∈ names) (own : columnNames (columns.getD []) ⊆ names) (inside : selectsNames selects ⊆ names)
    (moved : ∀ it ∈ filter, it.Steady inv) (steady : ∀ names, Steady inv (unit names)) :
    Yields inv (derivedRef id selects recursive outerInner columns filter unit) fun result =>
      ∀ it ∈ result.2, it.Steady inv := by
  intro g result last start ran
  rcases derivedRef_ok ran with ⟨base, name, found, rfl, rfl⟩ | ⟨known, query, rfl, wrote, rfl⟩
  · exact ⟨keeping.named g "t" base [] (.inl rfl) (inside (mergeableBase_named found)) (List.nil_subset _) start, moved⟩
  · exact ⟨steady _ _ _ _ (keeping.named g "d" id known (.inr rfl) table own start) wrote, nofun⟩

theorem outputs_steady (distinct : Bool) (names : Option (List String)) (cols : Option (List Cls)) (n : Nat)
    {items : List Child} (steady : ∀ it ∈ items, it.Steady inv) : Steady inv (outputs distinct names cols n items) := by
  induction items generalizing n with
  | nil => exact .pure
  | cons it items ih =>
      obtain ⟨first, rest⟩ := List.forall_mem_cons.mp steady
      have value : Steady inv (outputValue distinct cols n it) := by
        cases cols with
        | none => exact first.expr
        | some cols =>
            unfold outputValue
            dsimp only
            split
            · exact .throw
            · exact .ite .throw (.ite .throw (first.branch _))
      exact .read fun _ => .ite .throw (.ite .throw (value.bind fun _ => (outputName_any names _ n).steady.bind fun _ =>
        (ih (n + 1) rest).bind fun _ => .pure))

theorem selectList_steady (anyRow : Bool) (names : Option (List String)) (cols : Option (List Cls)) (flags : SelectFlags)
    {items : List Child} (steady : ∀ it ∈ items, it.Steady inv) :
    Steady inv (selectList anyRow names cols flags items) :=
  .ite .pure (outputs_steady flags.distinct names cols 0 steady).map

theorem sortKeys_steady (top : Bool) (flags : SelectFlags) {parts : SelectChild} (steady : parts.Steady inv) :
    ∀ key ∈ sortKeys top flags parts, key.child.Steady inv := by
  unfold sortKeys
  split
  · exact steady.order
  · split
    · exact steady.group
    · exact fun key member => absurd member List.not_mem_nil

theorem selectParts_steady (keeping : Keeping names inv) (top : Bool) (columns : Option (List String))
    (cols : Option (List Cls)) (flags : SelectFlags) {parts : SelectChild} (steady : parts.Steady inv) :
    Steady inv (selectParts top columns cols flags parts) := by
  refine .ite .throw (.ite .throw (.read fun _ => (Steady.change fun g => keeping.lists g false).bind fun _ =>
    .ite .throw (.ite .throw (.ite .throw (.follow steady.from_ fun result merged => ?_)))))
  have filters : ∀ it ∈ parts.filter.toList ++ result.2, it.Steady inv :=
    List.forall_mem_append.mpr ⟨fun it member => steady.filter it (Option.mem_toList.mp member), merged⟩
  exact (selectList_steady _ columns cols flags steady.items).bind fun _ => (conditions_steady filters).bind fun _ =>
    (orderList_steady false steady.group).bind fun _ => (optionalCondition_steady steady.having).bind fun _ =>
      (orderList_steady true (sortKeys_steady top flags steady)).bind fun _ =>
        (limit_any flags.limit).steady.bind fun _ => .pure

theorem legQuery_steady {leg : SelectGen} (names : Option (List String)) (cols : List Cls)
    (steady : ∀ names cols, Steady inv (leg.write names cols)) : Steady inv (legQuery names cols leg) :=
  .ite .throw (.ite .throw (steady names (some cols)))

theorem laterLegs_steady (cols : List Cls) {legs : List SelectGen}
    (steady : ∀ leg ∈ legs, ∀ names cols, Steady inv (leg.write names cols)) : Steady inv (laterLegs cols legs) := by
  induction legs with
  | nil => exact .pure
  | cons leg legs ih =>
      obtain ⟨first, rest⟩ := List.forall_mem_cons.mp steady
      exact (setOp_any _).steady.bind fun _ => (legQuery_steady none cols first).bind fun _ =>
        (ih rest).bind fun _ => .pure

theorem unitParts_steady (keeping : Keeping names inv) (columns : Option (List String)) (recursive : Bool)
    (types : List Item) (fields : Nat) (order : List LegsOrder) (withTies : Bool) (rows : Option LimitParams)
    {selects : List SelectGen} (steady : ∀ select ∈ selects, ∀ names cols, Steady inv (select.write names cols)) :
    Steady inv (unitParts columns recursive types fields order withTies rows selects) := by
  unfold unitParts
  split
  · exact .throw
  · exact steady _ (by simp) columns none
  · obtain ⟨first, later⟩ := List.forall_mem_cons.mp steady
    exact .ite .throw ((Steady.change fun g => keeping.lists g false).bind fun _ => (legTypes_any _ types).steady.bind
      fun cols => (legQuery_steady columns cols first).bind fun _ => (laterLegs_steady cols later).bind fun _ =>
        .ite .throw ((legsOrder_any columns cols.length fields order).steady.bind fun _ => (limit_any rows).steady.bind
          fun _ => .pure))

end Selects

section Walk

variable {names : List Name} {inv : Gen → Prop}

mutual

/-- What is written for an item gives names to what stands in it only. -/
theorem node_steady (keeping : Keeping names inv) : (it : Item) → it.names ⊆ names → Steady inv (node it)
  | .field _ f, _ => field_steady f
  | .ref _ type id target, inside => reference_steady type id (optional_steady keeping target inside)
  | .const attrs value, _ => literal_steady (.const attrs value)
  | .null attrs, _ => literal_steady (.null attrs)
  | .param _, _ => .throw
  | .func attrs variant type args, inside =>
      func_steady keeping (.func attrs variant type args) variant type (children_steady keeping args inside)
  | .cond _ type args, inside => cond_steady type (children_steady keeping args inside)
  | .sum _ f args, inside => sum_steady f false (children_steady keeping args inside)
  | .window _ f args partition order frame, inside => by
      rw [Item.names, List.append_subset, List.append_subset] at inside
      exact window_steady f frame (children_steady keeping args inside.1.1) (orders_steady keeping partition inside.1.2)
        (orders_steady keeping order inside.2)
  | .subselect _ type left unit, inside => by
      rw [Item.names, List.append_subset] at inside
      exact subselect_steady keeping type unit (optional_steady keeping left inside.1)
        (unit_steady keeping none unit inside.2)
  | .other _, _ => .throw

theorem query_steady (keeping : Keeping names inv) : (it : Item) → it.names ⊆ names → Steady inv (query it)
  | .subselect _ _ left unit, inside => by
      rw [Item.names, List.append_subset] at inside
      exact unit_steady keeping none unit inside.2
  | .field _ _, _ | .ref _ _ _ _, _ | .const _ _, _ | .null _, _ | .param _, _ | .func _ _ _ _, _
  | .cond _ _ _, _ | .sum _ _ _, _ | .window _ _ _ _ _ _, _ | .other _, _ => .throw

theorem optional_steady (keeping : Keeping names inv) : (it : Option Item) → optionNames it ⊆ names →
    ∀ child ∈ optional it, child.Steady inv
  | none, _ => fun child member => by cases member
  | some it, inside => fun child member => by
      cases member
      exact ⟨node_steady keeping it inside, query_steady keeping it inside⟩

theorem children_steady (keeping : Keeping names inv) : (items : List Item) → itemsNames items ⊆ names →
    ∀ child ∈ children items, child.Steady inv
  | [], _ => fun child member => by cases member
  | it :: items, inside => by
      rw [itemsNames, List.append_subset] at inside
      exact List.forall_mem_cons.mpr ⟨⟨node_steady keeping it inside.1, query_steady keeping it inside.1⟩,
        children_steady keeping items inside.2⟩

theorem orders_steady (keeping : Keeping names inv) : (keys : List Order) → ordersNames keys ⊆ names →
    ∀ key ∈ orderChildren keys, key.child.Steady inv
  | [], _ => fun key member => by cases member
  | .mk it descending :: keys, inside => by
      rw [ordersNames, List.append_subset] at inside
      exact List.forall_mem_cons.mpr ⟨⟨node_steady keeping it inside.1, query_steady keeping it inside.1⟩,
        orders_steady keeping keys inside.2⟩

theorem select_steady (keeping : Keeping names inv) (top : Bool) (columns : Option (List String))
    (cols : Option (List Cls)) : (select : Select) → select.names ⊆ names →
      Steady inv (Select.write top columns cols select)
  | .mk flags tables items filter groupList having orderList, inside => by
      simp only [Select.names, List.append_subset] at inside
      obtain ⟨⟨⟨⟨⟨tablesInside, itemsInside⟩, filterInside⟩, groupInside⟩, havingInside⟩, orderInside⟩ := inside
      exact selectParts_steady keeping top columns cols flags
        { from_ := joinList_steady (tables_steady keeping tables tablesInside)
          items := children_steady keeping items itemsInside
          filter := optional_steady keeping filter filterInside
          group := orders_steady keeping groupList groupInside
          having := optional_steady keeping having havingInside
          order := orders_steady keeping orderList orderInside }

theorem selectGens_steady (keeping : Keeping names inv) : (selects : List Select) → selectsNames selects ⊆ names →
    ∀ select ∈ selectGens selects, ∀ columns cols, Steady inv (select.write columns cols)
  | [], _ => fun select member => by cases member
  | select :: selects, inside => by
      rw [selectsNames, List.append_subset] at inside
      exact List.forall_mem_cons.mpr ⟨fun columns cols => select_steady keeping false columns cols select inside.1,
        selectGens_steady keeping selects inside.2⟩

theorem unit_steady (keeping : Keeping names inv) (columns : Option (List String)) : (unit : SelectUnit) →
    unit.names ⊆ names → Steady inv (SelectUnit.write columns unit)
  | .mk selects recursive types fields order withTies rows, inside =>
      unitParts_steady keeping columns recursive types fields order withTies rows
        (selectGens_steady keeping selects inside)

theorem firstFilter_steady (keeping : Keeping names inv) : (selects : List Select) → selectsNames selects ⊆ names →
    ∀ child ∈ firstFilter selects, child.Steady inv
  | [], _ => fun child member => by cases member
  | .mk _ _ _ filter _ _ _ :: _, inside => by
      simp only [selectsNames, Select.names, List.append_subset] at inside
      exact optional_steady keeping filter inside.1.1.1.1.2

theorem tables_steady (keeping : Keeping names inv) : (tables : List TableList) → tablesNames tables ⊆ names →
    ∀ t ∈ tableChildren tables, t.Steady inv
  | [], _ => fun t member => by cases member
  | .mk kind on outer semiJoin :: tables, inside => by
      simp only [tablesNames, List.append_subset] at inside
      exact List.forall_mem_cons.mpr ⟨⟨optional_steady keeping on inside.1.2, nested_steady keeping kind inside.1.1,
        ref_steady keeping outer kind inside.1.1⟩, tables_steady keeping tables inside.2⟩

theorem nested_steady (keeping : Keeping names inv) : (kind : TableKind) → kind.names ⊆ names →
    Yields inv (TableKind.joinTables kind) fun result => ∀ it ∈ result.2, it.Steady inv
  | .nested tables, inside => joinList_steady (tables_steady keeping tables inside)
  | .base _ _, _ | .derived _ _ _ _, _ | .unopened, _ => .throw

theorem ref_steady (keeping : Keeping names inv) (outer : Bool) : (kind : TableKind) → kind.names ⊆ names →
    Yields inv (TableKind.ref outer kind) fun result => ∀ it ∈ result.2, it.Steady inv
  | .derived id (.mk selects recursive types fields order withTies rows) columns embeddedOuter, inside => by
      simp only [TableKind.names, SelectUnit.names, List.cons_append, List.cons_subset, List.append_subset] at inside
      have written := derivedRef_steady keeping recursive (outer || embeddedOuter) inside.1 inside.2.1 inside.2.2
        (firstFilter_steady keeping selects inside.2.2) fun columns =>
          unitParts_steady keeping columns recursive types fields order withTies rows
            (selectGens_steady keeping selects inside.2.2)
      exact written
  | .nested _, _ => .throw
  | .unopened, _ => .throw
  | .base id name, inside =>
      (baseRef_steady keeping name (inside (by simp [TableKind.names]))).yields.bind fun _ _ => .pure nofun

end

end Walk

/-- An alias that no table is given from now on. -/
def Gen.Taken (g : Gen) (tableAlias : String) : Prop :=
  ∀ letter n, IsLetter letter → g.nextAlias ≤ n → tableAlias ≠ letter ++ toString n

/-- A table or a column goes by the alias. -/
def Gen.Uses (g : Gen) (tableAlias : String) : Prop :=
  tableAlias ∈ g.aliases.map Prod.snd ∨ tableAlias ∈ g.viewCols.map fun column => column.2.1

def Gen.Fresh (g : Gen) : Prop := ∀ tableAlias, g.Uses tableAlias → g.Taken tableAlias

section Aliases

variable {g later : Gen} {tableAlias letter other : String}

theorem alias_inj (isLetter : IsLetter letter) (isOther : IsLetter other) {n m : Nat}
    (same : letter ++ toString n = other ++ toString m) : n = m := by
  have chars := congrArg String.toList same
  simp only [String.toList_append, Nat.toString_eq_repr, Nat.toList_repr] at chars
  have digits : Nat.toDigits 10 n = Nat.toDigits 10 m := by
    rcases isLetter with rfl | rfl <;> rcases isOther with rfl | rfl
    · exact List.append_cancel_left chars
    · cases chars
    · cases chars
    · exact List.append_cancel_left chars
  simpa using congrArg (Nat.ofDigitChars 10 · 0) digits

theorem Gen.Taken.mono (taken : g.Taken tableAlias) (further : g.nextAlias ≤ later.nextAlias) : later.Taken tableAlias :=
  fun letter n isLetter bound => taken letter n isLetter (Nat.le_trans further bound)

theorem named_taken (isLetter : IsLetter letter) (id : TableId) (columns : List DerivedColumn) :
    (g.named letter id columns).Taken (letter ++ toString g.nextAlias) := by
  intro other n isOther bound same
  obtain rfl := alias_inj isLetter isOther same
  exact Nat.not_succ_le_self _ bound

theorem named_uses {id : TableId} {columns : List DerivedColumn} (uses : (g.named letter id columns).Uses tableAlias) :
    tableAlias = letter ++ toString g.nextAlias ∨ g.Uses tableAlias := by
  rcases uses with aliased | column
  · rcases List.mem_cons.mp aliased with new | old
    · exact .inl new
    · exact .inr (.inl old)
  · rw [Gen.named, List.map_append, List.mem_append] at column
    rcases column with new | old
    · obtain ⟨entry, member, rfl⟩ := List.mem_map.mp new
      obtain ⟨derived, -, isEntry⟩ := List.mem_filterMap.mp (List.mem_reverse.mp member)
      obtain ⟨item, -, rfl⟩ := Option.map_eq_some_iff.mp isEntry
      exact .inl rfl
    · exact .inr (.inr old)

theorem Gen.Fresh.named (fresh : g.Fresh) (isLetter : IsLetter letter) (id : TableId) (columns : List DerivedColumn) :
    (g.named letter id columns).Fresh := fun tableAlias uses => by
  rcases named_uses uses with rfl | old
  · exact named_taken isLetter id columns
  · exact (fresh tableAlias old).mono (Nat.le_succ _)

end Aliases

/-- A state of the generator in a FROM that it began in `start`: beside what
stands `inside` it knows what it knew there, and the tables and columns that
were named since, the newest first. -/
structure FromState (inside : List Name) (start : Gen) (tables : List (TableId × String))
    (columns : List (ItemId × String × String)) (g : Gen) : Prop where
  later : start.nextAlias ≤ g.nextAlias
  fresh : g.Fresh
  known : start.Fresh
  taken : ∀ tableAlias ∈ tables.map Prod.snd, g.Taken tableAlias
  distinct : (tables.map Prod.snd).Nodup
  apart : ∀ tableAlias ∈ tables.map Prod.snd, ¬ start.Uses tableAlias
  aliases : ∀ id, .table id ∉ inside → g.aliases.lookup id = (tables.lookup id).or (start.aliases.lookup id)
  viewCols : ∀ id, .column id ∉ inside → g.viewCols.lookup id = (columns.lookup id).or (start.viewCols.lookup id)

namespace FromState

variable {inside : List Name} {start g : Gen} {tables : List (TableId × String)}
  {columns : List (ItemId × String × String)}

theorem first (fresh : start.Fresh) : FromState inside start [] [] start where
  later := Nat.le_refl _
  fresh := fresh
  known := fresh
  taken := nofun
  distinct := .nil
  apart := nofun
  aliases _ _ := rfl
  viewCols _ _ := rfl

/-- The next table of the FROM. -/
theorem named (state : FromState inside start tables columns g) {letter : String} (isLetter : IsLetter letter)
    (id : TableId) (own : List DerivedColumn) :
    FromState inside start ((id, letter ++ toString g.nextAlias) :: tables)
      ((own.filterMap fun column => column.item.map fun item =>
        (item, letter ++ toString g.nextAlias, column.name)).reverse ++ columns) (g.named letter id own) where
  later := Nat.le_succ_of_le state.later
  fresh := state.fresh.named isLetter id own
  known := state.known
  taken := List.forall_mem_cons.mpr ⟨named_taken isLetter id own, fun tableAlias member =>
    (state.taken tableAlias member).mono (Nat.le_succ _)⟩
  distinct := List.nodup_cons.mpr
    ⟨fun member => state.taken _ member letter _ isLetter (Nat.le_refl _) rfl, state.distinct⟩
  apart := List.forall_mem_cons.mpr ⟨fun uses => state.known _ uses letter _ isLetter state.later rfl, state.apart⟩
  aliases other apart := by
    have known := state.aliases other apart
    simp only [Gen.named, List.lookup_cons]
    split
    · rfl
    · exact known
  viewCols item apart := by
    simp only [Gen.named, List.lookup_append, state.viewCols item apart, Option.or_assoc]

/-- What stands inside leaves the tables and columns of the FROM their names. -/
theorem keeping : Keeping inside (FromState inside start tables columns) where
  lists g flag state := ⟨state.later, state.fresh, state.known, state.taken, state.distinct, state.apart, state.aliases,
    state.viewCols⟩
  named g letter id own isLetter table ownInside state := by
    refine ⟨Nat.le_succ_of_le state.later, state.fresh.named isLetter id own, state.known,
      fun tableAlias member => (state.taken tableAlias member).mono (Nat.le_succ _), state.distinct, state.apart,
      fun other apart => ?_, fun item apart => ?_⟩
    · have differ : (other == id) = false := beq_eq_false_iff_ne.mpr fun same => apart (same ▸ table)
      simp only [Gen.named, List.lookup_cons, differ]
      exact state.aliases other apart
    · have missing : ((own.filterMap fun column => column.item.map fun item =>
          (item, letter ++ toString g.nextAlias, column.name)).reverse).lookup item = none := by
        rw [List.lookup_eq_none_iff]
        intro entry member
        rw [bne_iff_ne]
        rintro rfl
        obtain ⟨column, here, isEntry⟩ := List.mem_filterMap.mp (List.mem_reverse.mp member)
        obtain ⟨item, known, rfl⟩ := Option.map_eq_some_iff.mp isEntry
        exact apart (ownInside (List.mem_filterMap.mpr ⟨column, here, by rw [known]; rfl⟩))
      simp only [Gen.named, List.lookup_append, missing, Option.none_or]
      exact state.viewCols item apart

end FromState

end StoolapMariadb.SqlGen
