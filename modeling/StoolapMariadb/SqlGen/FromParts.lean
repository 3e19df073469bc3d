import StoolapMariadb.SqlGen.Merge
import StoolapMariadb.SqlGen.Names
import StoolapMariadb.SqlGen.Typing

namespace StoolapMariadb.SqlGen

/-! What `join_list` writes: the tables it took from the join list, in the order
they are joined, which of them it merged, and the state each is written from. -/

open StateExcept

/-- A table of the tree as the generator took it. -/
inductive SourceOf : TableKind → PartSource → Prop where
  | table {id name} : SourceOf (.base id name) (.table id name)
  | subquery {id unit columns embeddedOuter} :
      SourceOf (.derived id unit (some columns) embeddedOuter) (.subquery id unit columns)
  | merged {id base name flags semiJoin items filter groupList having orderList selects recursive types fields order
      withTies rows columns embeddedOuter} (mergeable : flags.mergeable = true) :
      SourceOf
        (.derived id (.mk (.mk flags [.mk (.base base name) none false semiJoin] items filter groupList having orderList ::
          selects) recursive types fields order withTies rows) columns embeddedOuter)
        (.merged ⟨id, base, name,
          .mk flags [.mk (.base base name) none false semiJoin] items filter groupList having orderList,
          columns.getD []⟩)

/-- What a table is written as in the state `g`, and the state after it: only a
subquery's columns are given texts. -/
inductive SourceWritten (g : Gen) : PartSource → Source → Gen → Prop where
  | table {id name} : SourceWritten g (.table id name) (.table name ("t" ++ toString g.nextAlias)) (g.named "t" id [])
  | subquery {id unit columns query last}
      (wrote : SelectUnit.write (some (columns.map DerivedColumn.name)) unit (g.named "d" id columns) =
        .ok (query, last)) :
      SourceWritten g (.subquery id unit columns) (.derived query ("d" ++ toString g.nextAlias)) last
  | merged {derived : MergedTable} :
      SourceWritten g (.merged derived) (.table derived.name ("t" ++ toString g.nextAlias)) (g.named "t" derived.base [])

def TableList.on : TableList → Option Item
  | .mk _ on _ _ => on

def TableList.kind : TableList → TableKind
  | .mk kind _ _ _ => kind

/-- How a table that is not the first is joined. -/
def TableList.join : TableList → JoinKind
  | .mk _ on outer _ => if outer then .left else if on.isSome then .inner else .cross

theorem TableList.outer_of_left {kind : TableKind} {on : Option Item} {outer semiJoin : Bool}
    (left : (TableList.mk kind on outer semiJoin).join = .left) : outer = true := by
  cases outer with
  | true => rfl
  | false => cases on <;> cases left

structure TakenAs (t : TableList) (part : Part) : Prop where
  source : SourceOf t.kind part.source
  on : part.on = t.on

/-- The parts of a FROM as they are written one after the other, each before its
conditions. -/
inductive FromWritten : Gen → List Part → List Joined → Gen → Prop where
  | done {g} : FromWritten g [] [] g
  | next {g part source referred on written parts joined last}
      (sourceWritten : SourceWritten g part.source source referred)
      (onWritten : conditions (children part.onItems) referred = .ok (on, written))
      (rest : FromWritten written parts joined last) :
      FromWritten g (part :: parts) (.mk part.join source on :: joined) last

theorem FromWritten.append {g middle last : Gen} {first second : List Part} {firstJoined secondJoined : List Joined}
    (left : FromWritten g first firstJoined middle) (right : FromWritten middle second secondJoined last) :
    FromWritten g (first ++ second) (firstJoined ++ secondJoined) last := by
  induction left with
  | done => exact right
  | next sourceWritten onWritten _ ih => exact .next sourceWritten onWritten (ih right)

/-- The tables of a join list in the order they are joined, a group that opens
it and has no ON without its parentheses. -/
inductive Flattened : List TableList → List TableList → Prop where
  | plain {tables} : Flattened tables tables
  | group {inner outer rest tables} (flat : Flattened inner.reverse tables) :
      Flattened (.mk (.nested inner) none outer false :: rest) (tables ++ rest)

/-- The parts of a join list accepted from one state to another. -/
structure PartsOf (g : Gen) (tables : List TableList) (parts : List Part) (joined : List Joined) (merged : List Child)
    (after : Gen) : Prop where
  taken : List.Forall₂ TakenAs tables parts
  written : FromWritten g parts joined after
  moved : merged = children (parts.flatMap Part.whereItems)
  joinable : ∀ part ∈ parts, Around.Joinable part

theorem optional_children (it : Option Item) : (optional it).toList = children it.toList := by
  cases it <;> rfl

theorem children_append (first second : List Item) : children (first ++ second) = children first ++ children second := by
  induction first with
  | nil => rfl
  | cons it first ih => rw [List.cons_append, children, ih, children, List.cons_append]

theorem optionalCondition_eq (it : Option Item) :
    optionalCondition (optional it) = conditions (children it.toList) := by
  cases it <;> rfl

/-- The text of an ON is that of its condition and those that moved to it. -/
theorem conditions_cons {it : Item} {items : List Item} {g middle last : Gen} {sql : Sql} {sqls : List Sql}
    (first : condition it g = .ok (sql, middle)) (rest : conditions (children items) middle = .ok (sqls, last)) :
    conditions (children (it :: items)) g = .ok (sql :: sqls, last) :=
  bind_ok.mpr ⟨sql, middle, first, bind_ok.mpr ⟨sqls, last, rest, rfl⟩⟩

/-- A table's reference: its source, the condition of a merged table, and on
the inner side of an outer join only fields. -/
theorem ref_parts {kind : TableKind} {outer : Bool} {g after : Gen} {source : Source} {merged : Option Child}
    (ran : TableKind.ref outer kind g = .ok ((source, merged), after)) :
    ∃ part, SourceOf kind part ∧ SourceWritten g part source after ∧
      ∀ join on, let p : Part := ⟨join, on, part⟩
        merged = optional p.moved ∧
          (outer = true → ∀ derived ∈ p.merged?, ∀ output ∈ derived.outputs, output.2.realItem.isField = true) := by
  cases kind with
  | base id name =>
      obtain ⟨written, last, based, ran⟩ := bind_ok.mp ran
      obtain ⟨same, rfl⟩ := pure_ok.mp ran
      cases same
      rw [baseRef_eq] at based
      cases based
      exact ⟨.table id name, .table, .table, fun join on => ⟨rfl, nofun⟩⟩
  | nested tables => exact (throw_ok.mp ran).elim
  | unopened => exact (throw_ok.mp ran).elim
  | derived id unit columns embeddedOuter =>
      obtain ⟨selects, recursive, types, fields, order, withTies, rows⟩ := unit
      rw [TableKind.ref] at ran
      rcases derivedRef_ok ran with ⟨base, name, found, same, rfl⟩ | ⟨known, query, rfl, wrote, same⟩
      · cases same
        obtain ⟨flags, semiJoin, items, filter, groupList, having, orderList, rest, rfl, mergeable, isField⟩ :=
          mergeableBase_some found
        refine ⟨_, .merged mergeable, .merged, fun join on => ⟨rfl, fun left derived here output given => ?_⟩⟩
        cases here
        exact isField (by simp [left]) output.2 (List.of_mem_zip given).2
      · cases same
        exact ⟨.subquery id _ known, .subquery, .subquery wrote, fun join on => ⟨rfl, nofun⟩⟩

/-- One table of the list that is no group, and the rest. -/
theorem table_parts {first : Bool} {kind : TableKind} {on : Option Item} {outer semiJoin : Bool} {tables : List TableList}
    {g after : Gen} {joined : List Joined} {merged : List Child} (noGroup : ¬ (first = true ∧ kind.isNested = true ∧ on = none))
    (ran : joinTables first (tableChildren (.mk kind on outer semiJoin :: tables)) g = .ok ((joined, merged), after)) :
    ∃ part source referred written middle restJoined restMerged,
      TakenAs (.mk kind on outer semiJoin) part ∧ Around.Joinable part ∧
        part.join = (if first then none else some (TableList.mk kind on outer semiJoin).join) ∧
        SourceWritten g part.source source referred ∧
        conditions (children part.onItems) referred = .ok (written, middle) ∧
        joined = .mk part.join source written :: restJoined ∧ merged = children part.whereItems ++ restMerged ∧
        joinTables false (tableChildren tables) middle = .ok ((restJoined, restMerged), after) := by
  rw [tableChildren, joinTables] at ran
  simp only at ran
  split at ran
  · exact (throw_ok.mp ran).elim
  · split at ran
    · exact (throw_ok.mp ran).elim
    · rename_i notOuterFirst
      split at ran
      · rename_i group
        refine (noGroup ?_).elim
        cases on <;> simp_all [optional]
      · obtain ⟨⟨source, mergedChild⟩, referred, refRan, ran⟩ := bind_ok.mp ran
        obtain ⟨part, sourceOf, sourceWritten, facts⟩ := ref_parts refRan
        have join : (if first = true then none else if outer = true then some JoinKind.left
            else if (optional on).isSome = true then some .inner else some .cross) =
            if first then none else some (TableList.mk kind on outer semiJoin).join := by
          cases first <;> cases outer <;> cases on <;> rfl
        have left (joined : (if first then none else some (TableList.mk kind on outer semiJoin).join) = some .left) :
            outer = true := by
          cases first with
          | true => cases joined
          | false => exact TableList.outer_of_left (Option.some.inj joined)
        rw [join] at ran
        cases on with
        | none =>
            simp only [optional] at ran
            split at ran
            · exact (throw_ok.mp ran).elim
            · rename_i inner
              obtain ⟨⟨restJoined, restMerged⟩, last, restRan, ran⟩ := bind_ok.mp ran
              obtain ⟨same, rfl⟩ := pure_ok.mp ran
              cases same
              refine ⟨⟨_, none, part⟩, source, referred, [], referred, restJoined, restMerged, ⟨sourceOf, rfl⟩,
                fun joined => (inner (left joined)).elim, rfl, sourceWritten, rfl, rfl, ?_, restRan⟩
              rw [(facts _ none).1]
              exact congrArg (· ++ restMerged) (optional_children _)
        | some on =>
            simp only [optional] at ran
            split at ran
            · exact (throw_ok.mp ran).elim
            · rename_i notFirst
              obtain ⟨cond, conditioned, condRan, ran⟩ := bind_ok.mp ran
              obtain ⟨mergedOn, mergedLast, mergedRan, ran⟩ := bind_ok.mp ran
              obtain ⟨⟨restJoined, restMerged⟩, last, restRan, ran⟩ := bind_ok.mp ran
              obtain ⟨same, rfl⟩ := pure_ok.mp ran
              cases same
              obtain ⟨moved, fields⟩ := facts (some (TableList.mk kind (some on) outer semiJoin).join) (some on)
              subst moved
              rw [optionalCondition_eq] at mergedRan
              refine ⟨⟨_, some on, part⟩, source, referred, _, mergedLast, restJoined, restMerged, ⟨sourceOf, rfl⟩,
                fun joined => ⟨rfl, fields (left ?_)⟩, (if_neg notFirst).symm, sourceWritten,
                conditions_cons condRan mergedRan, rfl, rfl, restRan⟩
              exact (if_neg notFirst).trans joined

/-- The tables after the first. -/
theorem laterTables_parts {tables : List TableList} {g after : Gen} {joined : List Joined} {merged : List Child}
    (ran : joinTables false (tableChildren tables) g = .ok ((joined, merged), after)) :
    ∃ parts, PartsOf g tables parts joined merged after ∧ parts.map Part.join = tables.map fun t => some t.join := by
  induction tables generalizing g joined merged with
  | nil =>
      obtain ⟨same, rfl⟩ := pure_ok.mp ran
      cases same
      exact ⟨[], ⟨.nil, .done, rfl, nofun⟩, rfl⟩
  | cons t tables ih =>
      obtain ⟨kind, on, outer, semiJoin⟩ := t
      obtain ⟨part, source, referred, written, middle, restJoined, restMerged, taken, joinable, join, sourceWritten,
        onWritten, rfl, rfl, rest⟩ := table_parts (by simp) ran
      obtain ⟨parts, ⟨restTaken, restWritten, restMoved, restJoinable⟩, joins⟩ := ih rest
      refine ⟨part :: parts, ⟨.cons taken restTaken, .next sourceWritten onWritten restWritten, ?_, ?_⟩, ?_⟩
      · rw [restMoved, List.flatMap_cons, children_append]
      · exact List.forall_mem_cons.mpr ⟨joinable, restJoinable⟩
      · rw [List.map_cons, List.map_cons, join, joins]
        rfl

theorem PartsOf.append {g middle after : Gen} {first second : List TableList} {firstParts secondParts : List Part}
    {firstJoined secondJoined : List Joined} {firstMerged secondMerged : List Child}
    (left : PartsOf g first firstParts firstJoined firstMerged middle)
    (right : PartsOf middle second secondParts secondJoined secondMerged after) :
    PartsOf g (first ++ second) (firstParts ++ secondParts) (firstJoined ++ secondJoined) (firstMerged ++ secondMerged)
      after where
  taken := List.rel_append left.taken right.taken
  written := left.written.append right.written
  moved := by rw [left.moved, right.moved, List.flatMap_append, children_append]
  joinable := List.forall_mem_append.mpr ⟨left.joinable, right.joinable⟩

/-- The whole of a list: the first table has no join before it. -/
structure ListParts (g : Gen) (tables : List TableList) (joined : List Joined) (merged : List Child) (after : Gen) :
    Prop where
  exists_ : ∃ flat parts, Flattened tables flat ∧ PartsOf g flat parts joined merged after ∧
    ∃ head tail, flat = head :: tail ∧ parts.map Part.join = none :: tail.map fun t => some t.join

theorem tableChildren_reverse (tables : List TableList) :
    (tableChildren tables).reverse = tableChildren tables.reverse := by
  have mapped (tables : List TableList) : tableChildren tables = tables.map fun t =>
      match t with
      | .mk kind on outer semiJoin =>
          { isNested := kind.isNested, on := optional on, outer, semiJoin,
            joinList := TableKind.joinTables kind, tableRef := TableKind.ref outer kind } := by
    induction tables with
    | nil => rfl
    | cons t tables ih =>
        obtain ⟨kind, on, outer, semiJoin⟩ := t
        rw [tableChildren, ih]
        rfl
  rw [mapped, mapped, List.map_reverse]

/-- What a group's list is, is what the list of a group is. -/
def GroupParts (kind : TableKind) : Prop :=
  ∀ g joined merged after, kind.joinTables g = .ok ((joined, merged), after) →
    ∃ inner, kind = .nested inner ∧ ListParts g inner.reverse joined merged after

theorem firstTables_parts {tables : List TableList} (groups : ∀ t ∈ tables, GroupParts t.kind) {g after : Gen}
    {joined : List Joined} {merged : List Child} (some_ : tables ≠ [])
    (ran : joinTables true (tableChildren tables) g = .ok ((joined, merged), after)) :
    ListParts g tables joined merged after := by
  cases tables with
  | nil => exact (some_ rfl).elim
  | cons t tables =>
      obtain ⟨kind, on, outer, semiJoin⟩ := t
      by_cases group : kind.isNested = true ∧ on = none
      · obtain ⟨nested, rfl⟩ := group
        rw [tableChildren, joinTables] at ran
        simp only at ran
        split at ran
        · exact (throw_ok.mp ran).elim
        · rename_i noSemi
          split at ran
          · exact (throw_ok.mp ran).elim
          · rw [if_pos (by simp [nested, optional])] at ran
            obtain ⟨⟨innerJoined, innerMerged⟩, middle, innerRan, ran⟩ := bind_ok.mp ran
            obtain ⟨⟨restJoined, restMerged⟩, last, restRan, ran⟩ := bind_ok.mp ran
            obtain ⟨same, rfl⟩ := pure_ok.mp ran
            cases same
            obtain ⟨inner, kindIs, flat, parts, flattened, partsOf, head, tail, rfl, joins⟩ :=
              groups _ List.mem_cons_self _ _ _ _ innerRan
            simp only [TableList.kind] at kindIs
            subst kindIs
            obtain ⟨restParts, restOf, restJoins⟩ := laterTables_parts restRan
            obtain rfl : semiJoin = false := by simpa using noSemi
            refine ⟨_, _, .group flattened, partsOf.append restOf, head, tail ++ tables, rfl, ?_⟩
            rw [List.map_append, joins, restJoins, List.map_append]
            rfl
      · obtain ⟨part, source, referred, written, middle, restJoined, restMerged, taken, joinable, join, sourceWritten,
          onWritten, rfl, rfl, rest⟩ := table_parts (fun whole => group whole.2) ran
        obtain ⟨parts, restOf, joins⟩ := laterTables_parts rest
        refine ⟨_, part :: parts, .plain, ⟨.cons taken restOf.taken, .next sourceWritten onWritten restOf.written, ?_, ?_⟩,
          _, _, rfl, ?_⟩
        · rw [restOf.moved, List.flatMap_cons, children_append]
        · exact List.forall_mem_cons.mpr ⟨joinable, restOf.joinable⟩
        · rw [List.map_cons, join, joins]
          rfl

theorem joinList_parts {tables : List TableList} (groups : ∀ t ∈ tables, GroupParts t.kind) {g after : Gen}
    {joined : List Joined} {merged : List Child}
    (ran : joinList (tableChildren tables) g = .ok ((joined, merged), after)) :
    ListParts g tables.reverse joined merged after := by
  unfold joinList at ran
  split at ran
  · exact (throw_ok.mp ran).elim
  · rename_i some_
    rw [tableChildren_reverse] at ran
    refine firstTables_parts (fun t member => groups t (List.mem_reverse.mp member)) ?_ ran
    rintro empty
    rw [List.reverse_eq_nil_iff] at empty
    subst empty
    exact some_ rfl

mutual

theorem kind_parts : (kind : TableKind) → GroupParts kind
  | .nested tables => fun _ _ _ _ ran => ⟨tables, rfl, joinList_parts (tables_parts tables) ran⟩
  | .base _ _ | .derived _ _ _ _ | .unopened => fun _ _ _ _ ran => (throw_ok.mp ran).elim

theorem tables_parts : (tables : List TableList) → ∀ t ∈ tables, GroupParts t.kind
  | [] => nofun
  | .mk kind _ _ _ :: tables => List.forall_mem_cons.mpr ⟨kind_parts kind, tables_parts tables⟩

end

/-- How a SELECT is written from the state `start`: the tables of its join list
as parts one after another, from `joined` on the list, then the conditions,
those of merged tables that no ON carries last. -/
inductive SelectParts (names : Option (List String)) (cols : Option (List Cls)) (start : Gen) :
    Select → List Part → Gen → Query → Prop where
  | mk {flags tables items filter groupList having orderList parts distinct list source filters groupBy havingSql orderBy
      rows flat joined listed filtered} (flattened : Flattened tables.reverse flat)
      (taken : List.Forall₂ TakenAs flat parts)
      (joins : ∃ head tail, flat = head :: tail ∧ parts.map Part.join = none :: tail.map fun t => some t.join)
      (joinable : ∀ part ∈ parts, Around.Joinable part)
      (fromWritten : FromWritten { start with existsList := false } parts source joined)
      (listWritten : selectList start.existsList names cols flags (children items) joined = .ok (list, listed))
      (filtersWritten : conditions (children (filter.toList ++ parts.flatMap Part.whereItems)) listed =
        .ok (filters, filtered)) :
      SelectParts names cols start (.mk flags tables items filter groupList having orderList) parts joined
        (.select distinct list source filters groupBy havingSql orderBy rows)

theorem SelectParts.joinable {names : Option (List String)} {cols : Option (List Cls)} {start joined : Gen} {sel : Select}
    {parts : List Part} {query : Query} (selectParts : SelectParts names cols start sel parts joined query) :
    ∀ part ∈ parts, Around.Joinable part := by
  cases selectParts with
  | mk flattened taken joins joinable => exact joinable

theorem select_parts {top : Bool} {names : Option (List String)} {cols : Option (List Cls)} {sel : Select}
    {g after : Gen} {query : Query} (accepted : Select.write top names cols sel g = .ok (query, after)) :
    ∃ parts joined, SelectParts names cols g sel parts joined query := by
  obtain ⟨merged, clauses⟩ := select_written accepted
  cases clauses with
  | mk fromRan listRan filterRan =>
      obtain ⟨flat, parts, flattened, partsOf, joins⟩ := joinList_parts (tables_parts _) fromRan
      rw [partsOf.moved, optional_children, ← children_append] at filterRan
      exact ⟨parts, _, .mk flattened partsOf.taken joins partsOf.joinable partsOf.written listRan filterRan⟩

end StoolapMariadb.SqlGen
