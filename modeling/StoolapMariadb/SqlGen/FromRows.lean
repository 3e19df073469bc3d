import StoolapMariadb.SqlGen.FromParts

namespace StoolapMariadb.SqlGen

/-! The rows that a FROM and WHERE give as they are written. -/

open Classical Lookup StateExcept

/-- What the text of a FROM and WHERE is evaluated with: the rows of tables and
of queries, and what a condition is TRUE for, of the rows that the aliases
stand for. -/
structure FromStore where
  table : String → Multiset TableRow
  subquery : (String → TableRow) → Query → Multiset TableRow
  holds : (String → TableRow) → Sql → Prop

def Source.tableAlias : Source → String
  | .table _ tableAlias | .derived _ tableAlias => tableAlias

def Joined.source : Joined → Source
  | .mk _ source _ => source

def Query.source : Query → List Joined
  | .select _ _ source _ _ _ _ _ => source
  | .legs _ _ _ _ => []

def Query.filters : Query → List Sql
  | .select _ _ _ filters _ _ _ _ => filters
  | .legs _ _ _ _ => []

namespace FromStore

variable (store : FromStore) (outer : String → TableRow)

def contents : Source → Multiset TableRow
  | .table name _ => store.table name
  | .derived query _ => store.subquery outer query

def takes (rows : String → TableRow) (sqls : List Sql) : Prop := ∀ sql ∈ sqls, store.holds rows sql

noncomputable def step : Joined → Joins.Step (String → TableRow)
  | .mk join source on =>
      .table nullRow (join = some .left) source.tableAlias (store.contents outer source) fun rows =>
        store.takes rows on

/-- The rows of a SELECT's FROM and WHERE, `outer` being those of the queries
around. -/
noncomputable def rows (query : Query) : Multiset (String → TableRow) :=
  (query.source.foldl (fun rows joined => (store.step outer joined).join rows) {outer}).filter fun rows =>
    store.takes rows query.filters

end FromStore

/-- What the generator knows of a column, it knows by the alias and the text
that has its value in the scope; what stands `inside` brings its own tables. -/
inductive Denotes (inside : List Name) (g : Gen) (rows : String → TableRow) (scope : Scope) : Item → Prop where
  | ownField {attrs f} (own : .table f.table ∈ inside) : Denotes inside g rows scope (.field attrs (some f))
  | ownColumn {attrs id target} (own : .column id ∈ inside) :
      Denotes inside g rows scope (.ref attrs .viewRef id (some target))
  | field {attrs f} (same : ∀ tableAlias, g.aliases.lookup f.table = some tableAlias →
      scope.field f = rows tableAlias f.name) : Denotes inside g rows scope (.field attrs (some f))
  | column {attrs id target} (same : scope.column id = (g.viewCols.lookup id).map fun column => rows column.1 column.2)
      (leaves : ∀ leaf ∈ target.reads, Denotes inside g rows scope leaf) :
      Denotes inside g rows scope (.ref attrs .viewRef id (some target))

theorem Denotes.of_visible {inside : List Name} {g : Gen} {rows : String → TableRow} {scope : Scope} {leaf : Item}
    {sees : TableId → Prop} {given : ItemId → Item → Prop} {free : ItemId → Prop}
    (fields : ∀ f : Field, .table f.table ∉ inside → ∀ tableAlias, g.aliases.lookup f.table = some tableAlias →
      scope.field f = rows tableAlias f.name)
    (columns : ∀ id, free id → .column id ∉ inside →
      scope.column id = (g.viewCols.lookup id).map fun column => rows column.1 column.2)
    (outputs : ∀ attrs id target, given id target →
      Denotes inside g rows scope (.ref attrs .viewRef id (some target)))
    (visible : Visible sees given free leaf) : Denotes inside g rows scope leaf := by
  induction visible with
  | @field attrs f _ =>
      by_cases own : .table f.table ∈ inside
      · exact .ownField own
      · exact .field (fields f own)
  | given known => exact outputs _ _ _ known
  | @through attrs id target unnamed _ ih =>
      by_cases own : .column id ∈ inside
      · exact .ownColumn own
      · exact .column (columns id unnamed own) ih

/-- The text of a condition by itself means the condition. -/
def FromStore.Renders (store : FromStore) (meaning : Meaning) (inside : List Name) (it : Item) : Prop :=
  ∀ g rows scope sql last, g.Fresh → (∀ leaf ∈ it.reads, Denotes inside g rows scope leaf) →
    condition it g = .ok (sql, last) → (store.holds rows sql ↔ meaning.holds scope it)

def PartSource.inside : PartSource → List Name
  | .table _ _ => []
  | .subquery _ unit _ => unit.names
  | .merged derived => optionNames derived.select.filter

def Part.inside (part : Part) : List Name := part.source.inside ++ optionNames part.on

/-- What is named in the parts of a SELECT, beside the tables of its FROM. -/
def insideNames (sel : Select) (parts : List Part) : List Name :=
  itemsNames sel.items ++ (optionNames sel.filter ++ parts.flatMap Part.inside)

/-- The tables of a FROM by their aliases, and the columns of its subqueries by
their texts; the newest first. -/
def tablesOf (done : List (Part × Joined)) : List (TableId × String) :=
  done.map fun one => (one.1.written, one.2.source.tableAlias)

def textsOf (done : List (Part × Joined)) : List (ItemId × String × String) :=
  done.flatMap fun one => (one.1.kept.map fun column => (column.1, one.2.source.tableAlias, column.2.2)).reverse

namespace Around

/-- The combination that the rows of the aliases are. -/
def byTable (around : Around) (tables : List (TableId × String)) (rows : String → TableRow) : Combination := fun id =>
  match tables.lookup id with
  | some tableAlias => rows tableAlias
  | none => around.combination id

/-- The store has what the FROM is evaluated with: under their aliases the
rows of the queries around, the rows of the tables and subqueries, and the
meaning of each condition by itself. -/
structure Served (around : Around) (store : FromStore) (outer : String → TableRow) (start : Gen) (sel : Select)
    (parts : List Part) (query : Query) : Prop where
  fresh : start.Fresh
  tables : ∀ id tableAlias, start.aliases.lookup id = some tableAlias → around.combination id = outer tableAlias
  columns : ∀ id, ((around.columns.lookup id).map fun column => around.combination column.1 column.2) =
    (start.viewCols.lookup id).map fun column => outer column.1 column.2
  contents : ∀ one ∈ parts.zip query.source, around.contents one.1.written = store.contents outer one.2.source
  conditions : ∀ it ∈ parts.flatMap Part.onItems ++ (sel.filter.toList ++ parts.flatMap Part.whereItems),
    store.Renders around.meaning (insideNames sel parts) it

end Around

section States

variable {inside : List Name} {start g referred : Gen} {done : List (Part × Joined)}

theorem named_texts (id : TableId) (columns : List DerivedColumn) (tableAlias : String) :
    ((named id columns).map fun column => (column.1, tableAlias, column.2.2)) =
      columns.filterMap fun column => column.item.map fun item => (item, tableAlias, column.name) := by
  rw [named, List.map_filterMap]
  congr 1
  funext column
  rw [Option.map_map]
  rfl

/-- The state after a table: it and its columns are known. -/
theorem SourceWritten.state {join : Option JoinKind} {on : Option Item} {source : PartSource} {written : Source}
    {sqls : List Sql} (sourceWritten : SourceWritten g source written referred) (own : source.inside ⊆ inside)
    (state : FromState inside start (tablesOf done) (textsOf done) g) :
    FromState inside start (tablesOf ((⟨join, on, source⟩, .mk join written sqls) :: done))
      (textsOf ((⟨join, on, source⟩, .mk join written sqls) :: done)) referred := by
  cases sourceWritten with
  | table => exact state.named (.inl rfl) _ []
  | merged => exact state.named (.inl rfl) _ []
  | subquery wrote =>
      rename_i id unit columns query
      have next := state.named (.inr rfl) id columns
      rw [← named_texts id] at next
      exact unit_steady FromState.keeping _ unit own _ _ _ next wrote

end States

section Inside

variable {names : List Name}

theorem itemsNames_subset {items : List Item} : itemsNames items ⊆ names ↔ ∀ it ∈ items, it.names ⊆ names := by
  induction items with
  | nil => simp [itemsNames]
  | cons it items ih => rw [itemsNames, List.append_subset, ih, List.forall_mem_cons]

theorem optionNames_subset {target : Option Item} : optionNames target ⊆ names ↔ ∀ it ∈ target, it.names ⊆ names := by
  cases target <;> simp [optionNames]

theorem moved_inside {part : Part} {it : Item} (moved : it ∈ part.moved) : it.names ⊆ part.source.inside := by
  obtain ⟨derived, merged, filtered⟩ := Option.bind_eq_some_iff.mp moved
  rw [Around.merged_source merged]
  exact optionNames_subset.mp (List.Subset.refl _) it filtered

/-- The conditions of a part, in its ON or in the WHERE, name what stands in
it. -/
theorem onItems_inside {part : Part} : itemsNames part.onItems ⊆ part.inside := by
  rw [itemsNames_subset]
  intro it here
  cases on : part.on with
  | none => simp [Part.onItems, on] at here
  | some own =>
      rw [Part.onItems, on, List.mem_cons] at here
      rcases here with rfl | moved
      · refine List.Subset.trans ?_ (List.subset_append_right _ _)
        rw [on, optionNames]
        exact List.Subset.refl _
      · exact List.Subset.trans (moved_inside (Option.mem_toList.mp moved)) (List.subset_append_left _ _)

theorem whereItems_inside {part : Part} : itemsNames part.whereItems ⊆ part.inside := by
  rw [itemsNames_subset]
  intro it here
  cases on : part.on with
  | none =>
      rw [Part.whereItems, on] at here
      exact List.Subset.trans (moved_inside (Option.mem_toList.mp here)) (List.subset_append_left _ _)
  | some own => simp [Part.whereItems, on] at here

theorem part_inside {sel : Select} {parts : List Part} {part : Part} (member : part ∈ parts) :
    part.inside ⊆ insideNames sel parts := fun _ here =>
  List.mem_append_right _ (List.mem_append_right _ (List.mem_flatMap.mpr ⟨part, member, here⟩))

theorem filters_inside {sel : Select} {parts : List Part} :
    itemsNames (sel.filter.toList ++ parts.flatMap Part.whereItems) ⊆ insideNames sel parts := by
  rw [itemsNames_subset, List.forall_mem_append]
  refine ⟨fun it here => ?_, fun it here => ?_⟩
  · exact List.Subset.trans (optionNames_subset.mp (List.Subset.refl _) it (Option.mem_toList.mp here))
      (List.Subset.trans (List.subset_append_left _ _) (List.subset_append_right _ _))
  · obtain ⟨part, member, moved⟩ := List.mem_flatMap.mp here
    exact List.Subset.trans (itemsNames_subset.mp whereItems_inside it moved) (part_inside member)

end Inside

namespace Around

variable {around : Around} {parts later : List Part} {filter : Option Item} {store : FromStore}
  {outer rows : String → TableRow} {inside : List Name} {start g last : Gen} {done : List (Part × Joined)}

theorem byTable_named {tables : List (TableId × String)} {id : TableId} {tableAlias : String}
    (known : tables.lookup id = some tableAlias) : around.byTable tables rows id = rows tableAlias := by
  simp only [byTable, known]

theorem byTable_unnamed {tables : List (TableId × String)} {id : TableId} (unknown : tables.lookup id = none) :
    around.byTable tables rows id = around.combination id := by
  simp only [byTable, unknown]

/-- A row of the newest table. -/
theorem byTable_update {tables : List (TableId × String)} {id : TableId} {tableAlias : String}
    (apart : tableAlias ∉ tables.map Prod.snd) (row : TableRow) :
    around.byTable ((id, tableAlias) :: tables) (Function.update rows tableAlias row) =
      Function.update (around.byTable tables rows) id row := by
  funext other
  by_cases same : other = id
  · subst same
    rw [Function.update_self, byTable_named List.lookup_cons_self, Function.update_self]
  · have lookup : ((id, tableAlias) :: tables).lookup other = tables.lookup other := by
      rw [List.lookup_cons, beq_eq_false_iff_ne.mpr same]
    rw [Function.update_of_ne same]
    cases known : tables.lookup other with
    | none => rw [byTable_unnamed (lookup.trans known), byTable_unnamed known]
    | some named =>
        have differ : named ≠ tableAlias := by
          rintro rfl
          exact apart (List.mem_map_of_mem (mem_of_lookup known))
        rw [byTable_named (lookup.trans known), byTable_named known, Function.update_of_ne differ]

/-- Aliases of no table joined yet have the rows of the queries around. -/
def Carries (outer : String → TableRow) (done : List (Part × Joined)) (rows : String → TableRow) : Prop :=
  ∀ tableAlias, tableAlias ∉ (tablesOf done).map Prod.snd → rows tableAlias = outer tableAlias

theorem Carries.update {part : Part} {one : Joined} (carries : Carries outer done rows) (row : TableRow) :
    Carries outer ((part, one) :: done) (Function.update rows one.source.tableAlias row) := by
  intro tableAlias outside
  simp only [tablesOf, List.map_cons, List.mem_cons, not_or] at outside
  rw [Function.update_of_ne outside.1]
  exact carries tableAlias outside.2

theorem written_nodup (distinct : (tableIds parts).Nodup) : (parts.map Part.written).Nodup := by
  refine List.nodup_iff_pairwise_ne.mpr (List.pairwise_map.mpr ((List.nodup_flatMap.mp distinct).2.imp ?_))
  exact fun disjoint same => disjoint written_own (same ▸ written_own)

/-- A table joined so far has its alias. -/
theorem tablesOf_lookup (distinct : (tableIds parts).Nodup) (split : parts = (done.map Prod.fst).reverse ++ later)
    {one : Part × Joined} (member : one ∈ done) :
    (tablesOf done).lookup one.1.written = some one.2.source.tableAlias := by
  refine lookup_mem ?_ (List.mem_map_of_mem member)
  have keys : (tablesOf done).map Prod.fst = (done.map Prod.fst).map Part.written := by
    simp only [tablesOf, List.map_map]
    rfl
  rw [keys, ← List.nodup_reverse, ← List.map_reverse]
  have whole := written_nodup distinct
  rw [split, List.map_append] at whole
  exact whole.of_append_left

/-- A table of the queries around is not joined. -/
theorem tablesOf_outside (split : parts = (done.map Prod.fst).reverse ++ later) {id : TableId}
    (outside : id ∉ tableIds parts) : (tablesOf done).lookup id = none := by
  refine lookup_none fun key => outside ?_
  obtain ⟨_, member, rfl⟩ := List.mem_map.mp key
  obtain ⟨one, here, rfl⟩ := List.mem_map.mp member
  refine List.mem_flatMap.mpr ⟨one.1, ?_, written_own⟩
  rw [split]
  exact List.mem_append_left _ (List.mem_reverse.mpr (List.mem_map_of_mem here))

theorem mem_textsOf {id : ItemId} {tableAlias name : String} :
    (id, tableAlias, name) ∈ textsOf done ↔
      ∃ one ∈ done, tableAlias = one.2.source.tableAlias ∧ (id, one.1.written, name) ∈ one.1.kept := by
  simp only [textsOf, List.mem_flatMap, List.mem_reverse, List.mem_map, Prod.mk.injEq]
  constructor
  · rintro ⟨one, member, column, kept, rfl, rfl, rfl⟩
    refine ⟨one, member, rfl, ?_⟩
    rwa [← (kept_written kept).1]
  · rintro ⟨one, member, rfl, kept⟩
    exact ⟨one, member, _, kept, rfl, rfl, rfl⟩

section State

variable {sel : Select} {query : Query}
  (prepared : around.Prepared parts filter) (served : around.Served store outer start sel parts query)
  (split : parts = (done.map Prod.fst).reverse ++ later)
  (state : FromState inside start (tablesOf done) (textsOf done) g) (carries : Carries outer done rows)

include served state carries

/-- A table goes by the alias that its row has. -/
theorem table_denotes {id : TableId} (outside : .table id ∉ inside) {tableAlias : String}
    (known : g.aliases.lookup id = some tableAlias) : around.byTable (tablesOf done) rows id = rows tableAlias := by
  rw [state.aliases id outside] at known
  cases joined : (tablesOf done).lookup id with
  | some own =>
      rw [joined] at known
      cases known
      exact byTable_named joined
  | none =>
      rw [joined, Option.none_or] at known
      have before : tableAlias ∈ start.aliases.map Prod.snd := List.mem_map_of_mem (mem_of_lookup known)
      rw [byTable_unnamed joined, served.tables id tableAlias known]
      exact (carries tableAlias fun own => state.apart tableAlias own (.inl before)).symm

include prepared split

/-- A column read by name has its text, and no column of a merged table has
one. -/
theorem column_denotes {id : ItemId} (outside : .column id ∉ inside)
    (seen : ∀ part ∈ parts, id ∈ part.kept.map Prod.fst → part ∈ done.map Prod.fst) :
    (around.mergedScope parts (around.byTable (tablesOf done) rows)).column id =
      (g.viewCols.lookup id).map fun column => rows column.1 column.2 := by
  have keptIds : ((around.keptColumns parts).map Prod.fst).Nodup := by
    have distinct := prepared.columnIds
    rw [List.map_append] at distinct
    exact distinct.of_append_right
  rw [state.viewCols id outside]
  simp only [mergedScope, scopeOf]
  cases text : (textsOf done).lookup id with
  | some column =>
      obtain ⟨tableAlias, name⟩ := column
      obtain ⟨one, member, rfl, kept⟩ := mem_textsOf.mp (mem_of_lookup text)
      have isPart : one.1 ∈ parts := by
        rw [split]
        exact List.mem_append_left _ (List.mem_reverse.mpr (List.mem_map_of_mem member))
      have column : (id, one.1.written, name) ∈ around.keptColumns parts :=
        List.mem_append_left _ (List.mem_flatMap.mpr ⟨one.1, isPart, kept⟩)
      rw [lookup_mem keptIds column, Option.some_or, Option.map_some, Option.map_some,
        byTable_named (tablesOf_lookup prepared.distinct split member)]
  | none =>
      have noPart : (parts.flatMap Part.kept).lookup id = none := by
        refine lookup_none fun own => ?_
        obtain ⟨⟨_, tableId, name⟩, member, rfl⟩ := List.mem_map.mp own
        obtain ⟨part, isPart, kept⟩ := List.mem_flatMap.mp member
        obtain ⟨one, isDone, rfl⟩ := List.mem_map.mp (seen part isPart (List.mem_map_of_mem kept))
        obtain rfl : tableId = one.1.written := (kept_written kept).1
        have differ := List.lookup_eq_none_iff.mp text _ (mem_textsOf.mpr ⟨one, isDone, rfl, kept⟩)
        simp at differ
      have outside : ∀ column ∈ around.columns.lookup id,
          around.byTable (tablesOf done) rows column.1 column.2 = around.combination column.1 column.2 := by
        intro column found
        rw [byTable_unnamed (tablesOf_outside split (prepared.outside _ (mem_of_lookup found)))]
      have before : ∀ column ∈ start.viewCols.lookup id, outer column.1 column.2 = rows column.1 column.2 := by
        intro column found
        have uses : column.1 ∈ start.viewCols.map fun column => column.2.1 :=
          List.mem_map.mpr ⟨_, mem_of_lookup found, rfl⟩
        rw [carries column.1 fun own => state.apart column.1 own (.inr uses)]
      rw [keptColumns, List.lookup_append, noPart, Option.none_or, Option.none_or, Option.map_congr outside,
        served.columns id, Option.map_congr before]

/-- What the items of a merged table read. -/
theorem inner_denotes {part : Part} {derived : MergedTable} (member : part ∈ parts) (merged : derived ∈ part.merged?)
    {it : Item} (inner : it ∈ derived.items) :
    ∀ leaf ∈ it.reads,
      Denotes inside g rows (around.mergedScope parts (around.byTable (tablesOf done) rows)) leaf := by
  intro leaf read
  refine Denotes.of_visible (fun f outside tableAlias known =>
    congrFun (table_denotes served state carries outside known) f.name)
    (fun id unnamed outside => ?_) (fun _ _ _ none => none.elim)
    (prepared.inner part member derived merged it inner leaf read)
  refine column_denotes prepared served split state carries outside fun other isPart kept => absurd ?_ unnamed
  obtain ⟨column, found, rfl⟩ := List.mem_map.mp kept
  exact List.mem_map_of_mem
    (List.mem_append_right _ (List.mem_append_left _ (List.mem_flatMap.mpr ⟨other, isPart, found⟩)))

/-- What an item of the SELECT reads: the column of a merged table is written as
its expression. -/
theorem reads_denote {seen : List Part} {it : Item} (reads : Reads parts seen it) (joined : seen ⊆ done.map Prod.fst) :
    ∀ leaf ∈ it.reads,
      Denotes inside g rows (around.mergedScope parts (around.byTable (tablesOf done) rows)) leaf := by
  intro leaf read
  refine Denotes.of_visible (fun f outside tableAlias known =>
    congrFun (table_denotes served state carries outside known) f.name)
    (fun id free outside => column_denotes prepared served split state carries outside fun part isPart kept =>
      joined (free.2 part isPart kept)) ?_ (reads leaf read)
  rintro attrs id target ⟨part, isSeen, derived, merged, output, given, known, rfl⟩
  have isPart : part ∈ parts := by
    rw [split]
    exact List.mem_append_left _ (List.mem_reverse.mpr (joined isSeen))
  by_cases own : .column id ∈ inside
  · exact .ownColumn own
  · refine .column (column_denotes prepared served split state carries own fun other found kept => absurd kept ?_)
      (inner_denotes prepared served split state carries isPart merged (output_item given))
    have distinct := prepared.columnIds
    rw [List.map_append, List.nodup_append] at distinct
    intro named
    obtain ⟨column, member, rfl⟩ := List.mem_map.mp named
    exact distinct.2.2 _ (List.mem_map_of_mem (mergedColumns_mem isPart merged given known)) _
      (List.mem_map_of_mem (List.mem_append_left _ (List.mem_flatMap.mpr ⟨other, found, member⟩))) rfl

/-- What an ON reads, with the condition that moved to it. -/
theorem on_denotes {part : Part} {one : Joined} {before : List (Part × Joined)} (isDone : done = (part, one) :: before)
    {it : Item} (here : it ∈ part.onItems) :
    ∀ leaf ∈ it.reads,
      Denotes inside g rows (around.mergedScope parts (around.byTable (tablesOf done) rows)) leaf := by
  have isSplit : parts = (before.map Prod.fst).reverse ++ part :: later := by simp [split, isDone]
  cases on : part.on with
  | none => simp [Part.onItems, on] at here
  | some own =>
      simp only [Part.onItems, on, List.mem_cons] at here
      rcases here with rfl | moved
      · refine reads_denote prepared served split state carries (prepared.on _ part later isSplit it on) ?_
        simp [isDone]
      · obtain ⟨derived, merged, filtered⟩ := Option.bind_eq_some_iff.mp (Option.mem_toList.mp moved)
        exact inner_denotes prepared served split state carries (by simp [isSplit]) merged
          (List.mem_append_right _ (Option.mem_toList.mpr filtered))

end State

/-- The texts of conditions mean the conditions. -/
theorem conditions_mean {meaning : Meaning} {scope : Scope} {inv : Gen → Prop} {items : List Item} {sqls : List Sql}
    (keeping : Keeping inside inv) (fresh : ∀ g, inv g → g.Fresh) (named : itemsNames items ⊆ inside)
    (renders : ∀ it ∈ items, store.Renders meaning inside it)
    (denotes : ∀ g, inv g → ∀ it ∈ items, ∀ leaf ∈ it.reads, Denotes inside g rows scope leaf) (first : inv g)
    (ran : conditions (children items) g = .ok (sqls, last)) :
    store.takes rows sqls ↔ meaning.takes scope items := by
  induction items generalizing g sqls with
  | nil =>
      obtain ⟨rfl, -⟩ := pure_ok.mp ran
      simp [FromStore.takes, Meaning.takes]
  | cons it items ih =>
      obtain ⟨sql, middle, wrote, ran⟩ := bind_ok.mp ran
      obtain ⟨rest, after, restRan, ran⟩ := bind_ok.mp ran
      obtain ⟨rfl, rfl⟩ := pure_ok.mp ran
      rw [itemsNames, List.append_subset] at named
      obtain ⟨here, others⟩ := List.forall_mem_cons.mp renders
      have child : Child.Steady inv ⟨it, node it, query it⟩ :=
        ⟨node_steady keeping it named.1, query_steady keeping it named.1⟩
      have means := here g rows scope sql middle (fresh g first) (denotes g first it List.mem_cons_self) wrote
      have below := ih named.2 others (fun g kept other member => denotes g kept other (List.mem_cons_of_mem _ member))
        (child.condition g sql middle first wrote) restRan
      rw [FromStore.takes, Meaning.takes, List.forall_mem_cons, List.forall_mem_cons]
      exact and_congr means below

/-- The FROM as it is written: joined by alias there is what is joined by table,
with the base tables. -/
theorem fromWritten_rows {sel : Select} {query : Query} (prepared : around.Prepared parts filter)
    (served : around.Served store outer start sel parts query) {source : List Joined}
    (written : FromWritten g later source last) (split : parts = (done.map Prod.fst).reverse ++ later)
    (state : FromState (insideNames sel parts) start (tablesOf done) (textsOf done) g)
    (contents : ∀ one ∈ later.zip source, around.contents one.1.written = store.contents outer one.2.source)
    {combinations : Multiset (String → TableRow)} (carries : ∀ rows ∈ combinations, Carries outer done rows) :
    FromState (insideNames sel parts) start (tablesOf ((later.zip source).reverse ++ done))
        (textsOf ((later.zip source).reverse ++ done)) last ∧
      (∀ rows ∈ source.foldl (fun rows joined => (store.step outer joined).join rows) combinations,
        Carries outer ((later.zip source).reverse ++ done) rows) ∧
      later.foldl (fun rows part => (around.mergedStep parts part).join rows)
          (combinations.map (around.byTable (tablesOf done))) =
        (source.foldl (fun rows joined => (store.step outer joined).join rows) combinations).map
          (around.byTable (tablesOf ((later.zip source).reverse ++ done))) := by
  induction written generalizing done combinations with
  | done => exact ⟨state, carries, rfl⟩
  | @next g part source referred on middle later joined last sourceWritten onWritten rest ih =>
      have member : part ∈ parts := by simp [split]
      have inside : part.inside ⊆ insideNames sel parts := part_inside member
      have onInside : itemsNames part.onItems ⊆ insideNames sel parts := List.Subset.trans onItems_inside inside
      have referredState : FromState (insideNames sel parts) start (tablesOf ((part, .mk part.join source on) :: done))
          (textsOf ((part, .mk part.join source on) :: done)) referred :=
        sourceWritten.state (List.Subset.trans (List.subset_append_left _ _) inside) state
      have middleState := conditions_steady (children_steady FromState.keeping part.onItems onInside) referred on middle
        referredState onWritten
      have nextSplit : parts = (((part, Joined.mk part.join source on) :: done).map Prod.fst).reverse ++ later := by
        simp [split]
      have apart : source.tableAlias ∉ (tablesOf done).map Prod.snd := (List.nodup_cons.mp referredState.distinct).1
      have own : around.contents part.written = store.contents outer source := contents _ List.mem_cons_self
      have one : (around.mergedStep parts part).join (combinations.map (around.byTable (tablesOf done))) =
          ((store.step outer (.mk part.join source on)).join combinations).map
            (around.byTable (tablesOf ((part, .mk part.join source on) :: done))) := by
        rw [mergedStep, own]
        refine Joins.Step.table_map nullRow _ part.written source.tableAlias _ _ _ _ _
          (fun rows _ row => byTable_update apart row) fun rows found row => ?_
        refine (conditions_mean FromState.keeping (fun g state => state.fresh) onInside
          (fun it here => served.conditions it (List.mem_append_left _ (List.mem_flatMap.mpr ⟨part, member, here⟩)))
          (fun g state it here => ?_) referredState onWritten).symm
        exact on_denotes prepared served nextSplit state ((carries rows found).update row) rfl here
      have joinedCarries : ∀ rows ∈ (store.step outer (.mk part.join source on)).join combinations,
          Carries outer ((part, .mk part.join source on) :: done) rows := by
        intro rows joined
        obtain ⟨before, found, extended | rfl⟩ := Joins.Step.mem_join joined
        · obtain ⟨row, -, rfl⟩ := Multiset.mem_map.mp extended
          exact (carries before found).update row
        · exact (carries before found).update nullRow
      have next := ih nextSplit middleState (fun one here => contents one (List.mem_cons_of_mem _ here)) joinedCarries
      rw [List.foldl_cons, List.foldl_cons, one, List.zip_cons_cons, List.reverse_cons, List.append_assoc]
      exact next

/-- The combination that the rows of a query's FROM are. -/
def joinedAs (around : Around) (parts : List Part) (query : Query) (rows : String → TableRow) : Combination :=
  around.byTable (tablesOf (parts.zip query.source).reverse) rows

theorem fromWritten_length {source : List Joined} (written : FromWritten g later source last) :
    later.length = source.length := by
  induction written with
  | done => rfl
  | next _ _ _ ih => exact congrArg (· + 1) ih

section Select

variable {names : Option (List String)} {cols : Option (List Cls)} {sel : Select} {joined : Gen} {query : Query}
  (prepared : around.Prepared parts sel.filter) (served : around.Served store outer start sel parts query)

include prepared served

/-- What the WHERE reads, with the conditions that moved to it. -/
theorem filters_denote (split : parts = (done.map Prod.fst).reverse)
    (state : FromState inside start (tablesOf done) (textsOf done) g) (carries : Carries outer done rows) {it : Item}
    (here : it ∈ sel.filter.toList ++ parts.flatMap Part.whereItems) :
    ∀ leaf ∈ it.reads,
      Denotes inside g rows (around.mergedScope parts (around.byTable (tablesOf done) rows)) leaf := by
  have whole : parts = (done.map Prod.fst).reverse ++ [] := split.trans (List.append_nil _).symm
  rcases List.mem_append.mp here with own | moved
  · refine reads_denote prepared served whole state carries (prepared.filter it (Option.mem_toList.mp own)) ?_
    intro part member
    rw [split] at member
    exact List.mem_reverse.mp member
  · obtain ⟨part, member, isMoved⟩ := List.mem_flatMap.mp moved
    cases on : part.on with
    | some own => simp [Part.whereItems, on] at isMoved
    | none =>
        rw [Part.whereItems, on] at isMoved
        obtain ⟨derived, merged, filtered⟩ := Option.bind_eq_some_iff.mp (Option.mem_toList.mp isMoved)
        exact inner_denotes prepared served whole state carries member merged
          (List.mem_append_right _ (Option.mem_toList.mpr filtered))

/-- The FROM and WHERE as they are written give the rows of the merged tables,
and the list is written where their columns are known by their expressions. -/
theorem select_rows (selectParts : SelectParts names cols start sel parts joined query) :
    around.mergedRows parts sel.filter = (store.rows outer query).map (around.joinedAs parts query) ∧
      ∀ rows ∈ store.rows outer query, ∀ it, Reads parts parts it → ∀ leaf ∈ it.reads,
        Denotes (insideNames sel parts) joined rows (around.mergedScope parts (around.joinedAs parts query rows)) leaf := by
  have cleared : around.Served store outer { start with existsList := false } sel parts query :=
    ⟨served.fresh, served.tables, served.columns, served.contents, served.conditions⟩
  cases selectParts with
  | @mk flags tables items filter groupList having orderList _ distinct list source filters groupBy havingSql orderBy
      limit flat _ listed filtered flattened taken joins joinable fromWritten listWritten filtersWritten =>
      have first := @FromState.first (insideNames (.mk flags tables items filter groupList having orderList) parts) _
        cleared.fresh
      obtain ⟨state, carries, rows⟩ := @fromWritten_rows _ _ _ _ _ _ _ _ _ [] _ _ prepared cleared _ fromWritten rfl first
        served.contents {outer} fun rows found tableAlias _ => by rw [Multiset.mem_singleton.mp found]
      rw [List.append_nil] at state carries rows
      have split : parts = ((parts.zip source).reverse.map Prod.fst).reverse := by
        rw [List.map_reverse, List.reverse_reverse, List.map_fst_zip (Nat.le_of_eq (fromWritten_length fromWritten))]
      have seen : parts ⊆ (parts.zip source).reverse.map Prod.fst := by
        intro part member
        rw [split] at member
        exact List.mem_reverse.mp member
      have listState := selectList_steady start.existsList names cols flags
        (children_steady FromState.keeping items (List.subset_append_left _ _)) joined list listed state listWritten
      refine ⟨?_, fun rows found it reads => ?_⟩
      · have start : Multiset.map (around.byTable (tablesOf [])) {outer} = {around.combination} :=
          Multiset.map_singleton _ _
        rw [start] at rows
        rw [mergedRows, rows, Multiset.filter_map]
        refine congrArg (Multiset.map _) (Multiset.filter_congr fun rows found => ?_)
        refine (conditions_mean FromState.keeping (fun g state => state.fresh) filters_inside
          (fun it here => served.conditions it (List.mem_append_right _ here)) (fun g state it here => ?_) listState
          filtersWritten).symm
        exact filters_denote prepared cleared split state (carries rows found) here
      · exact reads_denote prepared cleared (split.trans (List.append_nil _).symm) state
          (carries rows (Multiset.mem_of_mem_filter found)) reads seen

end Select

end Around

/-- Merging derived tables preserves the FROM and WHERE of an accepted SELECT:
as they are written, with the base tables, the conditions in the ONs and the
WHERE, they give the same combinations, as often, as with subqueries; every item
the SELECT may hold has the same value for them, and its columns are written as
what they are. -/
theorem merge_preserves_rows {top : Bool} {names : Option (List String)} {cols : Option (List Cls)} {sel : Select}
    {g after : Gen} {query : Query} (accepted : Select.write top names cols sel g = .ok (query, after)) :
    (∃ parts joined, SelectParts names cols g sel parts joined query) ∧
      ∀ parts joined, SelectParts names cols g sel parts joined query → ∀ around : Around,
        around.Prepared parts sel.filter → ∀ store outer, around.Served store outer g sel parts query →
          around.subqueryRows parts sel.filter =
              (store.rows outer query).map
                (fun rows => around.unmerge parts parts.reverse (around.joinedAs parts query rows)) ∧
            ∀ rows ∈ store.rows outer query, ∀ it, Around.Reads parts parts it →
              around.meaning.value
                  (around.subqueryScope parts (around.unmerge parts parts.reverse (around.joinedAs parts query rows))) it =
                around.meaning.value (around.mergedScope parts (around.joinedAs parts query rows)) it ∧
              ∀ leaf ∈ it.reads, Denotes (insideNames sel parts) joined rows
                (around.mergedScope parts (around.joinedAs parts query rows)) leaf := by
  refine ⟨select_parts accepted, fun parts joined selectParts around prepared store outer served => ?_⟩
  obtain ⟨merged, denotes⟩ := Around.select_rows prepared served selectParts
  refine ⟨?_, fun rows found it reads => ⟨?_, denotes rows found it reads⟩⟩
  · rw [Around.subqueryRows_eq prepared selectParts.joinable, merged, Multiset.map_map]
    rfl
  · have whole : (Around.tableIds parts.reverse).Nodup :=
      ((List.reverse_perm parts).flatMap_right Part.ids).nodup_iff.mpr prepared.distinct
    exact Around.value_unmerge prepared reads (by simp) (by simp) whole

def sampleCompare (op : Comparison) : List Value → Value
  | [left, right] => boolean (Engine.reference.compareValues op left right)
  | _ => none

mutual

/-- A meaning to compute with, of columns and comparisons. -/
def sampleValue (scope : Scope) : Item → Value
  | .field _ (some f) => scope.field f
  | .const _ (.int n) => some (.integer n)
  | .ref _ type id (some target) =>
      if type = .viewRef then (scope.column id).getD (sampleValue scope target) else sampleValue scope target
  | .func _ _ (.compare op _ _) args => sampleCompare op.comparison (sampleValues scope args)
  | _ => none

def sampleValues (scope : Scope) : List Item → List Value
  | [] => []
  | it :: items => sampleValue scope it :: sampleValues scope items

end

mutual

theorem sampleValue_determined (scope other : Scope) : (it : Item) →
    (∀ leaf ∈ it.reads, sampleValue scope leaf = sampleValue other leaf) → sampleValue scope it = sampleValue other it
  | .field _ _, same => same _ (by simp [Item.reads])
  | .ref attrs type id none, _ => by simp [sampleValue]
  | .ref attrs type id (some target), same => by
      by_cases view : type = .viewRef
      · exact same _ (by simp [Item.reads, view])
      · have below := sampleValue_determined scope other target
          (by simpa only [Item.reads, if_neg view, optionReads] using same)
        simp [sampleValue, view, below]
  | .func _ _ type args, same => by
      have below := sampleValues_determined scope other args (by simpa only [Item.reads] using same)
      cases type <;> simp [sampleValue, below]
  | .const _ literal, _ => by cases literal <;> simp [sampleValue]
  | .null _, _ | .param _, _ | .cond _ _ _, _ | .sum _ _ _, _ | .window _ _ _ _ _ _, _ | .subselect _ _ _ _, _
  | .other _, _ => by simp [sampleValue]

theorem sampleValues_determined (scope other : Scope) : (items : List Item) →
    (∀ leaf ∈ itemsReads items, sampleValue scope leaf = sampleValue other leaf) →
      sampleValues scope items = sampleValues other items
  | [], _ => rfl
  | it :: items, same => by
      rw [itemsReads, List.forall_mem_append] at same
      rw [sampleValues, sampleValues, sampleValue_determined scope other it same.1,
        sampleValues_determined scope other items same.2]

end

def sampleMeaning : Meaning where
  value := sampleValue
  field scope attrs f := by simp [sampleValue]
  ref scope attrs type id target other := by simp [sampleValue, other]
  viewRef scope attrs id target := by simp [sampleValue]
  determined := sampleValue_determined

/-- `SELECT u.id FROM u LEFT JOIN (SELECT uid FROM o WHERE amt > 15) d ON
d.uid = u.id`. -/
def sampleColumn (table : TableId) (name : String) : Item :=
  .field (intAttrs false) (some { intField name with table })

def sampleFlags : SelectFlags where
  olap := false
  tvc := false
  withTies := false
  foundRows := false
  distinct := false
  withSumFunc := false
  mergeable := true
  haveWindowFuncs := false
  uncacheableRand := false
  linkage := .other
  distinctLeg := false
  limit := none

def sampleInner : Select :=
  .mk sampleFlags [.mk (.base 2 "o") none false false] [sampleColumn 2 "uid"]
    (some (.func (intAttrs true) false (.compare .gt .other none)
      [sampleColumn 2 "amt", .const (intAttrs false) (.int 15)])) [] none []

def sampleOn : Item :=
  .func (intAttrs true) false (.compare .eq .other none)
    [.ref (intAttrs false) .viewRef 7 (some (sampleColumn 2 "uid")), sampleColumn 0 "id"]

def sampleTables : List TableList :=
  [.mk (.derived 1 (.mk [sampleInner] false [] 0 [] false none) (some [⟨some 7, "uid"⟩]) false) (some sampleOn) true false,
   .mk (.base 0 "u") none false false]

def sampleDerived : MergedTable := ⟨1, 2, "o", sampleInner, [⟨some 7, "uid"⟩]⟩

def sampleParts : List Part :=
  [⟨none, none, .table 0 "u"⟩, ⟨some .left, some sampleOn, .merged sampleDerived⟩]

def sampleRow (columns : List (String × Int64)) : TableRow := fun name =>
  (columns.lookup name).map Scalar.integer

def sampleUsers : Multiset TableRow := {sampleRow [("id", 1)], sampleRow [("id", 2)]}

def sampleOrders : Multiset TableRow := {sampleRow [("uid", 1), ("amt", 10)], sampleRow [("uid", 2), ("amt", 20)]}

def sampleAround : Around where
  meaning := sampleMeaning
  contents id := if id = 0 then sampleUsers else if id = 2 then sampleOrders else {}
  combination _ := nullRow
  columns := []

theorem sampleParts_merged {part : Part} {derived : MergedTable} (member : part ∈ sampleParts)
    (merged : derived ∈ part.merged?) : derived = sampleDerived := by
  simp only [sampleParts, List.mem_cons, List.not_mem_nil, or_false] at member
  rcases member with rfl | rfl
  · cases merged
  · cases merged
    rfl

theorem sampleItem_inner {it leaf : Item} (inner : it ∈ sampleDerived.items) (read : leaf ∈ it.reads) :
    leaf = sampleColumn 2 "uid" ∨ leaf = sampleColumn 2 "amt" := by
  have items : sampleDerived.items = sampleColumn 2 "uid" :: sampleInner.filter.toList := rfl
  rw [items, List.mem_cons] at inner
  rcases inner with rfl | filter
  · exact .inl (List.mem_singleton.mp read)
  · cases List.mem_singleton.mp filter
    exact .inr (List.mem_singleton.mp read)

theorem sampleOn_reads {leaf : Item} (read : leaf ∈ sampleOn.reads) :
    leaf = .ref (intAttrs false) .viewRef 7 (some (sampleColumn 2 "uid")) ∨ leaf = sampleColumn 0 "id" := by
  have reads : sampleOn.reads =
      [.ref (intAttrs false) .viewRef 7 (some (sampleColumn 2 "uid")), sampleColumn 0 "id"] := rfl
  simpa only [reads, List.mem_cons, List.not_mem_nil, or_false] using read

theorem sampleColumn_seen {table : TableId} {name : String} {sees : TableId → Prop} {given : ItemId → Item → Prop}
    {free : ItemId → Prop} (seen : sees table) : Visible sees given free (sampleColumn table name) := .field seen

theorem sampleBase_shown : ¬ Around.Hidden sampleParts 0 := by
  rintro ⟨part, member, derived, merged, same⟩
  rw [sampleParts_merged member merged] at same
  exact absurd same (by decide)

theorem sampleParts_prepared : sampleAround.Prepared sampleParts none where
  distinct := by decide
  names part member derived merged := by
    rw [sampleParts_merged member merged]
    decide
  columnIds := by decide
  outside := nofun
  plain part member derived merged := by
    rw [sampleParts_merged member merged]
    rfl
  inner part member derived merged it inner leaf read := by
    rw [sampleParts_merged member merged] at inner ⊢
    rcases sampleItem_inner inner read with rfl | rfl <;> exact sampleColumn_seen (.inl rfl)
  own part member derived merged output given attrs f real := by
    rw [sampleParts_merged member merged] at given ⊢
    cases List.mem_singleton.mp given
    cases real
    rfl
  on before part after split it here leaf read := by
    have last : part = sampleParts[1] ∧ before = [sampleParts[0]] := by
      cases before with
      | nil =>
          cases split
          cases here
      | cons first before =>
          cases before with
          | nil =>
              cases split
              exact ⟨rfl, rfl⟩
          | cons second before => simp [sampleParts] at split
    obtain ⟨rfl, rfl⟩ := last
    cases here
    rcases sampleOn_reads read with rfl | rfl
    · exact .given ⟨_, List.mem_append_right _ List.mem_cons_self, sampleDerived, rfl,
        (⟨some 7, "uid"⟩, sampleColumn 2 "uid"), List.mem_cons_self, rfl, rfl⟩
    · exact sampleColumn_seen sampleBase_shown
  filter := nofun

def sampleSelect : Select := .mk sampleFlags sampleTables [sampleColumn 0 "id"] none [] none []

def sampleOnSql : List Sql :=
  [.paren (.compare .eq (.column "t1" "uid") (.column "t0" "id")),
   .paren (.compare .gt (.column "t1" "amt") (.integer 15))]

def sampleQuery : Query :=
  .select false (some [.mk (.column "t0" "id") none])
    [.mk none (.table "u" "t0") [], .mk (some .left) (.table "o" "t1") sampleOnSql] [] [] none [] none

/-- What the texts of such items mean. -/
def sampleText (rows : String → TableRow) : Sql → Value
  | .column tableAlias name => rows tableAlias name
  | .integer n => some (.integer n)
  | .paren operand => sampleText rows operand
  | .compare op left right => sampleCompare op [sampleText rows left, sampleText rows right]
  | _ => none

def sampleStore : FromStore where
  table name := if name = "u" then sampleUsers else if name = "o" then sampleOrders else {}
  subquery _ _ := {}
  holds rows sql := sampleText rows sql = some (.boolean true)

section Texts

variable {g : Gen} {rows : String → TableRow} {scope : Scope}

theorem field_text {f : Field} (same : ∀ tableAlias, g.aliases.lookup f.table = some tableAlias →
    scope.field f = rows tableAlias f.name) :
    Yields (· = g) (field (some f)) fun sql => sampleText rows sql = scope.field f := by
  refine .read fun state here => .ite (fun _ => .throw) fun _ => ?_
  subst here
  cases known : state.aliases.lookup f.table with
  | none => exact .throw
  | some tableAlias => exact .pure (same tableAlias known).symm

theorem sampleColumn_text {table : TableId} {name : String} (denotes : Denotes [] g rows scope (sampleColumn table name)) :
    Yields (· = g) (expr (sampleColumn table name)) fun sql =>
      sampleText rows sql = sampleValue scope (sampleColumn table name) := by
  cases denotes with
  | ownField own => cases own
  | field same => exact field_text same

/-- A reference is written as the column, or as what it is. -/
theorem sampleReference_text {id : ItemId} {table : TableId} {name : String}
    (denotes : Denotes [] g rows scope (.ref (intAttrs false) .viewRef id (some (sampleColumn table name)))) :
    Yields (· = g) (expr (.ref (intAttrs false) .viewRef id (some (sampleColumn table name)))) fun sql =>
      sampleText rows sql = sampleValue scope (.ref (intAttrs false) .viewRef id (some (sampleColumn table name))) := by
  have referred : Yields (· = g) (reference .viewRef id (optional (some (sampleColumn table name)))) fun sql =>
      sampleText rows sql = (scope.column id).getD (sampleValue scope (sampleColumn table name)) := by
    cases denotes with
    | ownColumn own => cases own
    | column same leaves =>
        refine .ite (fun view => by cases view) fun _ => .read fun state here => ?_
        subst here
        cases known : state.viewCols.lookup id with
        | some column =>
            rw [known] at same
            rw [same]
            exact .pure rfl
        | none =>
            rw [known] at same
            rw [same]
            exact sampleColumn_text (leaves _ (List.mem_singleton.mpr rfl))
  exact referred

theorem sampleConstant_text (n : Int64) :
    Yields (· = g) (expr (.const (intAttrs false) (.int n))) fun sql => sampleText rows sql = some (.integer n) := by
  have written : Yields (· = g) (constant (intAttrs false) (.int n)) fun sql =>
      sampleText rows sql = some (.integer n) := by
    rw [constant]
    refine .ite (fun _ => .throw) fun _ => .pure ?_
    rw [sampleText]
  exact written

theorem sampleCompare_text {x y : Item} {op : CompareOp} {left right : Value}
    (plain : temporalLiteral x y (some .other) = none ∧ temporalLiteral y x (some .other) = none)
    (first : Yields (· = g) (expr x) fun sql => sampleText rows sql = left)
    (second : Yields (· = g) (expr y) fun sql => sampleText rows sql = right) :
    Yields (· = g) (condition (.func (intAttrs true) false (.compare op .other none) [x, y])) fun sql =>
      sampleText rows sql = sampleCompare op.comparison [left, right] := by
  have compared : Yields (· = g) (compare op.comparison .other none ⟨x, node x, query x⟩ ⟨y, node y, query y⟩) fun sql =>
      sampleText rows sql = sampleCompare op.comparison [left, right] := by
    unfold compare
    simp only [plain.1, plain.2]
    refine .read fun _ _ => .ite (fun _ => first.bind fun leftSql leftSame => second.bind fun rightSql rightSame =>
      .pure ?_) fun _ => .throw
    rw [sampleText, sampleText, leftSame, rightSame]
  exact compared

theorem sampleRenders {op : CompareOp} {x y : Item}
    (text : ∀ g rows scope, (∀ leaf ∈ x.reads ++ (y.reads ++ []), Denotes [] g rows scope leaf) →
      Yields (· = g) (condition (.func (intAttrs true) false (.compare op .other none) [x, y])) fun sql =>
        sampleText rows sql = sampleCompare op.comparison [sampleValue scope x, sampleValue scope y]) :
    sampleStore.Renders sampleMeaning [] (.func (intAttrs true) false (.compare op .other none) [x, y]) := by
  intro g rows scope sql last _ denotes ran
  have same := (text g rows scope denotes g sql last rfl ran).2
  exact iff_of_eq (congrArg (· = some (Scalar.boolean true)) same)

end Texts

theorem sampleOn_renders : sampleStore.Renders sampleMeaning [] sampleOn :=
  sampleRenders fun _ _ _ denotes => sampleCompare_text ⟨rfl, rfl⟩
    (sampleReference_text (denotes _ List.mem_cons_self))
    (sampleColumn_text (denotes _ (List.mem_cons_of_mem _ List.mem_cons_self)))

def sampleMoved : Item :=
  .func (intAttrs true) false (.compare .gt .other none) [sampleColumn 2 "amt", .const (intAttrs false) (.int 15)]

theorem sampleMoved_renders : sampleStore.Renders sampleMeaning [] sampleMoved :=
  sampleRenders fun _ _ _ denotes => sampleCompare_text ⟨rfl, rfl⟩
    (sampleColumn_text (denotes _ List.mem_cons_self)) (sampleConstant_text 15)

def sampleJoined : Gen where
  trustBin := false
  aliases := [(2, "t1"), (0, "t0")]
  viewCols := []
  nextAlias := 2
  assigned := []
  existsList := false
  guard := none

theorem sampleParts_select : SelectParts none none (newGen false) sampleSelect sampleParts sampleJoined sampleQuery :=
  .mk .plain (.cons ⟨.table, rfl⟩ (.cons ⟨.merged rfl, rfl⟩ .nil)) ⟨_, _, rfl, rfl⟩
    (fun part member left => by
      simp only [sampleParts, List.mem_cons, List.not_mem_nil, or_false] at member
      rcases member with rfl | rfl
      · cases left
      · refine ⟨rfl, fun derived merged output given => ?_⟩
        cases merged
        cases List.mem_singleton.mp given
        rfl)
    (.next .table rfl (.next .merged rfl .done)) rfl rfl

theorem sampleParts_served :
    sampleAround.Served sampleStore (fun _ => nullRow) (newGen false) sampleSelect sampleParts sampleQuery where
  fresh := by
    rintro _ (aliased | column)
    · cases aliased
    · cases column
  tables := nofun
  columns _ := rfl
  contents one member := by
    have zipped : sampleParts.zip sampleQuery.source =
        [(sampleParts[0], .mk none (.table "u" "t0") []), (sampleParts[1], .mk (some .left) (.table "o" "t1") sampleOnSql)] :=
      rfl
    rw [zipped, List.mem_cons, List.mem_singleton] at member
    rcases member with rfl | rfl
    · rfl
    · rfl
  conditions it member := by
    have items : sampleParts.flatMap Part.onItems ++ (sampleSelect.filter.toList ++ sampleParts.flatMap Part.whereItems) =
        [sampleOn, sampleMoved] := rfl
    rw [items, List.mem_cons, List.mem_singleton] at member
    rcases member with rfl | rfl
    · exact sampleOn_renders
    · exact sampleMoved_renders

theorem merge_preserves_rows_sample :
    sampleAround.subqueryRows sampleParts none =
      (sampleStore.rows (fun _ => nullRow) sampleQuery).map fun rows =>
        sampleAround.unmerge sampleParts sampleParts.reverse (sampleAround.joinedAs sampleParts sampleQuery rows) :=
  ((@merge_preserves_rows true none none sampleSelect (newGen false) _ sampleQuery rfl).2 sampleParts sampleJoined
    sampleParts_select sampleAround sampleParts_prepared sampleStore (fun _ => nullRow) sampleParts_served).1

end StoolapMariadb.SqlGen
