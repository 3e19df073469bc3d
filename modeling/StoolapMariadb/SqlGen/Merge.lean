import StoolapMariadb.Lib.Joins
import StoolapMariadb.Lib.Lookup
import StoolapMariadb.SqlGen.Eval
import StoolapMariadb.SqlGen.Meaning

namespace StoolapMariadb.SqlGen

/-! A FROM with its derived tables written as subqueries, and with the base
tables of some in their place. -/

open Classical Lookup

/-- A combination of rows, one of each table joined so far; the tables of the
queries around have theirs. -/
abbrev Combination := TableId → TableRow

def nullRow : TableRow := fun _ => none

/-- The columns that are read by name: of which table, and under which name. -/
abbrev ViewColumns := List (ItemId × TableId × String)

def scopeOf (columns : ViewColumns) (combination : Combination) : Scope where
  field f := combination f.table f.name
  column id := (columns.lookup id).map fun column => combination column.1 column.2

/-- A derived table written as its base table. -/
structure MergedTable where
  id : TableId
  base : TableId
  name : String
  select : Select
  columns : List DerivedColumn

inductive PartSource where
  | table (id : TableId) (name : String)
  | subquery (id : TableId) (unit : SelectUnit) (columns : List DerivedColumn)
  | merged (derived : MergedTable)

/-- A table of a FROM. -/
structure Part where
  join : Option JoinKind
  on : Option Item
  source : PartSource

def Select.filter : Select → Option Item
  | .mk _ _ _ filter _ _ _ => filter

/-- A SELECT that gives a row for each row its WHERE takes. -/
def Select.isPlain : Select → Bool
  | .mk flags _ _ _ groupList having _ =>
      groupList.isEmpty && having.isNone && !flags.distinct && flags.limit.isNone && !flags.withSumFunc

namespace MergedTable

variable (derived : MergedTable)

/-- Its columns with what they are in its select list. -/
def outputs : List (DerivedColumn × Item) := derived.columns.zip derived.select.items

/-- The items that are evaluated for a row of the base table. -/
def items : List Item := derived.outputs.map Prod.snd ++ derived.select.filter.toList

/-- Its row for what the base table's columns are in the scope. -/
def row (meaning : Meaning) (scope : Scope) : TableRow := fun name =>
  match derived.outputs.find? fun output => output.1.name = name with
  | some output => meaning.value scope output.2
  | none => none

end MergedTable

def named (id : TableId) (columns : List DerivedColumn) : ViewColumns :=
  columns.filterMap fun column => column.item.map fun item => (item, id, column.name)

namespace Part

def merged? (part : Part) : Option MergedTable :=
  match part.source with
  | .merged derived => some derived
  | _ => none

/-- The tables it is, as a subquery and as its base table. -/
def ids (part : Part) : List TableId :=
  match part.source with
  | .table id _ | .subquery id _ _ => [id]
  | .merged derived => [derived.id, derived.base]

/-- The table that is written for it. -/
def written (part : Part) : TableId :=
  match part.source with
  | .table id _ | .subquery id _ _ => id
  | .merged derived => derived.base

/-- The columns that are read by name when it is written. -/
def kept (part : Part) : ViewColumns :=
  match part.source with
  | .subquery id _ columns => named id columns
  | _ => []

/-- The condition that moves with a merged table. -/
def moved (part : Part) : Option Item := part.merged?.bind fun derived => derived.select.filter

/-- What a merged table's join keeps: its ON with the condition that moved to
it. -/
def onItems (part : Part) : List Item :=
  match part.on with
  | none => []
  | some on => on :: part.moved.toList

/-- What goes to the WHERE when there is no ON. -/
def whereItems (part : Part) : List Item :=
  match part.on with
  | none => part.moved.toList
  | some _ => []

end Part

/-- What a FROM is evaluated with: a meaning of items, the rows of the tables
and of the subqueries, and the combination of the queries around it, with their
derived columns. -/
structure Around where
  meaning : Meaning
  contents : TableId → Multiset TableRow
  combination : Combination
  columns : ViewColumns

namespace Around

variable (around : Around) (parts : List Part)

def mergedColumns (parts : List Part) : ViewColumns :=
  parts.flatMap fun part =>
    match part.source with
    | .merged derived => named derived.id derived.columns
    | _ => []

/-- The columns that are read by name either way. -/
def keptColumns : ViewColumns := parts.flatMap Part.kept ++ around.columns

/-- Where items are evaluated when every derived table is a subquery. -/
def subqueryScope (combination : Combination) : Scope :=
  scopeOf (mergedColumns parts ++ around.keptColumns parts) combination

/-- Where they are evaluated when some are merged. -/
def mergedScope (combination : Combination) : Scope := scopeOf (around.keptColumns parts) combination

/-- The rows of a derived table that is a subquery. -/
noncomputable def derivedRows (derived : MergedTable) : Multiset TableRow :=
  let inner (row : TableRow) : Scope :=
    scopeOf around.columns (Function.update around.combination derived.base row)
  if derived.select.isPlain then
    ((around.contents derived.base).filter fun row =>
      around.meaning.takes (inner row) derived.select.filter.toList).map
      fun row => derived.row around.meaning (inner row)
  else around.contents derived.id

/-- The join of a table, a derived one being a subquery. -/
noncomputable def subqueryStep (part : Part) : Joins.Step Combination :=
  let on (combination : Combination) : Prop :=
    around.meaning.takes (around.subqueryScope parts combination) part.on.toList
  match part.source with
  | .table id _ | .subquery id _ _ => .table nullRow (part.join = some .left) id (around.contents id) on
  | .merged derived => .table nullRow (part.join = some .left) derived.id (around.derivedRows derived) on

/-- The join of a table, a merged one being its base table. -/
noncomputable def mergedStep (part : Part) : Joins.Step Combination :=
  .table nullRow (part.join = some .left) part.written (around.contents part.written) fun combination =>
    around.meaning.takes (around.mergedScope parts combination) part.onItems

/-- The rows of the SELECT's FROM and WHERE with subqueries. -/
noncomputable def subqueryRows (filter : Option Item) : Multiset Combination :=
  (parts.foldl (fun rows part => (around.subqueryStep parts part).join rows) {around.combination}).filter
    fun combination => around.meaning.takes (around.subqueryScope parts combination) filter.toList

/-- The rows of the SELECT's FROM and WHERE as they are written. -/
noncomputable def mergedRows (filter : Option Item) : Multiset Combination :=
  (parts.foldl (fun rows part => (around.mergedStep parts part).join rows) {around.combination}).filter
    fun combination => around.meaning.takes (around.mergedScope parts combination)
      (filter.toList ++ parts.flatMap Part.whereItems)

/-- A combination with the rows of the merged tables made those of the
subqueries; the tables are given last first. -/
noncomputable def unmerge (tables : List Part) (combination : Combination) : Combination :=
  match tables with
  | [] => combination
  | part :: rest =>
      match part.source with
      | .merged derived =>
          Function.update (Function.update (unmerge rest combination) derived.base (around.combination derived.base))
            derived.id (derived.row around.meaning (around.mergedScope parts combination))
      | _ => unmerge rest combination

/-- The tables that are written only one way. -/
def Hidden (parts : List Part) (id : TableId) : Prop :=
  ∃ part ∈ parts, ∃ derived ∈ part.merged?, id = derived.id ∨ id = derived.base

def tableIds (parts : List Part) : List TableId := parts.flatMap Part.ids

/-- The item is a column that the queries of a merged table see. -/
def Output (seen : List Part) (id : ItemId) (target : Item) : Prop :=
  ∃ part ∈ seen, ∃ derived ∈ part.merged?, ∃ output ∈ derived.outputs, output.1.item = some id ∧ output.2 = target

/-- The item is no column of a merged table, nor of a subquery not seen. -/
def Free (seen : List Part) (id : ItemId) : Prop :=
  id ∉ (mergedColumns parts).map Prod.fst ∧ ∀ part ∈ parts, id ∈ part.kept.map Prod.fst → part ∈ seen

/-- An item of the SELECT: it reads the columns of merged tables as references
to them. -/
def Reads (seen : List Part) (it : Item) : Prop :=
  ∀ leaf ∈ it.reads, Visible (fun id => ¬ Hidden parts id) (Output seen) (Free parts seen) leaf

/-- What MariaDB's prepared tree keeps: every table stands once, the columns of
a derived table have names of their own, a condition reads the tables joined so
far, and a derived table reads its own; one MariaDB would merge is a plain
SELECT. -/
structure Prepared (filter : Option Item) : Prop where
  distinct : (tableIds parts).Nodup
  names : ∀ part ∈ parts, ∀ derived ∈ part.merged?, (derived.columns.map DerivedColumn.name).Nodup
  columnIds : ((mergedColumns parts ++ around.keptColumns parts).map Prod.fst).Nodup
  outside : ∀ column ∈ around.columns, column.2.1 ∉ tableIds parts
  plain : ∀ part ∈ parts, ∀ derived ∈ part.merged?, derived.select.isPlain = true
  inner : ∀ part ∈ parts, ∀ derived ∈ part.merged?, ∀ it ∈ derived.items, ∀ leaf ∈ it.reads,
    Visible (fun id => id = derived.base ∨ id ∉ tableIds parts) (fun _ _ => False)
      (fun id => id ∉ (mergedColumns parts ++ around.keptColumns parts).map Prod.fst) leaf
  own : ∀ part ∈ parts, ∀ derived ∈ part.merged?, ∀ output ∈ derived.outputs, ∀ attrs f,
    output.2.realItem = .field attrs (some f) → f.table = derived.base
  on : ∀ before part after, parts = before ++ part :: after → ∀ it ∈ part.on,
    Reads parts (before ++ [part]) it
  filter : ∀ it ∈ filter, Reads parts parts it

/-- What the generator asks of an outer join: an ON, and of a merged table on
its inner side that its columns are fields. -/
def Joinable (part : Part) : Prop :=
  part.join = some .left →
    part.on.isSome = true ∧ ∀ derived ∈ part.merged?, ∀ output ∈ derived.outputs, output.2.realItem.isField = true

variable {around parts} {filter : Option Item} {part : Part} {derived : MergedTable} {c other : Combination}

theorem unmerge_other {tables : List Part} {id : TableId} (seen : ¬ Hidden tables id) :
    around.unmerge parts tables c id = c id := by
  induction tables with
  | nil => rfl
  | cons part rest ih =>
      have below : around.unmerge parts rest c id = c id :=
        ih fun ⟨other, member, hidden⟩ => seen ⟨other, List.mem_cons_of_mem _ member, hidden⟩
      cases source : part.source with
      | table | subquery => simpa only [unmerge, source] using below
      | merged derived =>
          have apart : id ≠ derived.id ∧ id ≠ derived.base := by
            rw [← not_or]
            exact fun same => seen ⟨part, List.mem_cons_self, derived, by simp [Part.merged?, source], same⟩
          simp only [unmerge, source, Function.update_of_ne apart.1, Function.update_of_ne apart.2, below]

theorem merged_ids (merged : derived ∈ part.merged?) : part.ids = [derived.id, derived.base] := by
  cases source : part.source with
  | table | subquery => simp [Part.merged?, source] at merged
  | merged other =>
      simp only [Part.merged?, source, Option.mem_def, Option.some.injEq] at merged
      subst merged
      simp only [Part.ids, source]

theorem merged_source (merged : derived ∈ part.merged?) : part.source = .merged derived := by
  cases source : part.source with
  | table | subquery => simp [Part.merged?, source] at merged
  | merged other =>
      simp only [Part.merged?, source, Option.mem_def, Option.some.injEq] at merged
      rw [merged]

/-- The row of a merged table, when every table stands once. -/
theorem unmerge_derived {tables : List Part} (distinct : (tableIds tables).Nodup) (member : part ∈ tables)
    (merged : derived ∈ part.merged?) :
    around.unmerge parts tables c derived.id = derived.row around.meaning (around.mergedScope parts c) := by
  induction tables with
  | nil => cases member
  | cons head rest ih =>
      have distinct' := distinct
      rw [tableIds, List.flatMap_cons, List.nodup_append] at distinct'
      obtain ⟨-, restDistinct, apart⟩ := distinct'
      rcases List.mem_cons.mp member with same | member
      · subst same
        simp only [unmerge, merged_source merged, Function.update_self]
      · have below := ih restDistinct member
        have inRest : derived.id ∈ rest.flatMap Part.ids :=
          List.mem_flatMap.mpr ⟨part, member, by simp [merged_ids merged]⟩
        cases source : head.source with
        | table | subquery => simpa only [unmerge, source] using below
        | merged other =>
            have ids : head.ids = [other.id, other.base] := merged_ids (by simp [Part.merged?, source])
            have first : derived.id ≠ other.id := fun same => apart other.id (by simp [ids]) _ inRest same.symm
            have second : derived.id ≠ other.base := fun same => apart other.base (by simp [ids]) _ inRest same.symm
            simp only [unmerge, source, Function.update_of_ne first, Function.update_of_ne second, below]

theorem part_unique {parts : List Part} (distinct : (tableIds parts).Nodup) {first second : Part} {id : TableId}
    (firstMember : first ∈ parts) (secondMember : second ∈ parts) (inFirst : id ∈ first.ids)
    (inSecond : id ∈ second.ids) : first = second := by
  by_contra differ
  have apart := (List.nodup_flatMap.mp distinct).2
  have symmetric : Std.Symm (Function.onFun List.Disjoint Part.ids) := ⟨fun _ _ disjoint => disjoint.symm⟩
  exact apart.forall firstMember secondMember differ inFirst inSecond

theorem written_own : part.written ∈ part.ids := by
  cases source : part.source <;> simp [Part.written, Part.ids, source]

/-- The columns that are kept are those of the table that is written. -/
theorem kept_written {column : ItemId × TableId × String} (member : column ∈ part.kept) :
    column.2.1 = part.written ∧ part.merged? = none := by
  cases source : part.source with
  | table | merged => simp [Part.kept, source] at member
  | subquery id unit columns =>
      simp only [Part.kept, source, named, List.mem_filterMap, Option.map_eq_some_iff] at member
      obtain ⟨_, _, _, _, rfl⟩ := member
      simp only [Part.written, Part.merged?, source, and_self]

/-- A table whose columns are kept is not a merged one. -/
theorem keptColumns_seen (prepared : around.Prepared parts filter) {id : ItemId} {column : TableId × String}
    (member : (id, column) ∈ around.keptColumns parts) : ¬ Hidden parts column.1 := by
  rintro ⟨part, partMember, derived, merged, hidden⟩
  have inPart : column.1 ∈ part.ids := by
    rw [merged_ids merged]
    simpa using hidden
  rcases List.mem_append.mp member with own | outer
  · obtain ⟨other, otherMember, found⟩ := List.mem_flatMap.mp own
    obtain ⟨isWritten, unmerged⟩ := kept_written found
    have same := part_unique prepared.distinct otherMember partMember (isWritten ▸ written_own) inPart
    subst same
    rw [unmerged] at merged
    cases merged
  · exact prepared.outside _ outer (List.mem_flatMap.mpr ⟨part, partMember, inPart⟩)

/-- Where a merged table's column is read by name, and under which. -/
theorem mergedColumns_mem {id : ItemId} {output : DerivedColumn × Item} (member : part ∈ parts)
    (merged : derived ∈ part.merged?) (given : output ∈ derived.outputs) (known : output.1.item = some id) :
    (id, derived.id, output.1.name) ∈ mergedColumns parts := by
  refine List.mem_flatMap.mpr ⟨part, member, ?_⟩
  rw [merged_source merged]
  refine List.mem_filterMap.mpr ⟨output.1, (List.of_mem_zip given).1, ?_⟩
  rw [known]
  rfl

theorem zip_fst_sublist {α β : Type} (first : List α) (second : List β) :
    ((first.zip second).map Prod.fst).Sublist first := by
  induction first generalizing second with
  | nil => simp
  | cons a first ih =>
      cases second with
      | nil => simp
      | cons b second => exact (ih second).cons_cons a

/-- A column of the row of a derived table. -/
theorem row_value {meaning : Meaning} {scope : Scope} {output : DerivedColumn × Item}
    (names : (derived.columns.map DerivedColumn.name).Nodup) (given : output ∈ derived.outputs) :
    derived.row meaning scope output.1.name = meaning.value scope output.2 := by
  have distinct : (derived.outputs.map fun output => output.1.name).Nodup := by
    have columns := (zip_fst_sublist derived.columns derived.select.items).map DerivedColumn.name
    rw [List.map_map] at columns
    exact names.sublist columns
  have found : derived.outputs.find? (fun other => other.1.name = output.1.name) = some output := by
    cases search : derived.outputs.find? fun other => other.1.name = output.1.name with
    | none => simpa using List.find?_eq_none.mp search output given
    | some other =>
        have same : other.1.name = output.1.name := by simpa using List.find?_some search
        rw [List.inj_on_of_nodup_map distinct (List.mem_of_find?_eq_some search) given same]
  simp only [MergedTable.row, found]

/-- An item of the SELECT has one value either way. -/
theorem value_unmerge (prepared : around.Prepared parts filter) {tables seen : List Part} {it : Item}
    (reads : Reads parts seen it) (joined : seen ⊆ tables) (sub : tables ⊆ parts)
    (distinct : (tableIds tables).Nodup) :
    around.meaning.value (around.subqueryScope parts (around.unmerge parts tables c)) it =
      around.meaning.value (around.mergedScope parts c) it := by
  have untouched {id : TableId} (visible : ¬ Hidden parts id) : around.unmerge parts tables c id = c id :=
    unmerge_other fun ⟨part, member, hidden⟩ => visible ⟨part, sub member, hidden⟩
  refine around.meaning.value_congr reads ?_ ?_ ?_
  · intro f visible
    simp only [subqueryScope, mergedScope, scopeOf, untouched visible]
  · rintro attrs id target ⟨part, member, derived, merged, output, given, known, rfl⟩
    have inParts := sub (joined member)
    have column := mergedColumns_mem inParts merged given known
    have named : (mergedColumns parts ++ around.keptColumns parts).lookup id = some (derived.id, output.1.name) :=
      lookup_mem prepared.columnIds (List.mem_append_left _ column)
    have unnamed : (around.keptColumns parts).lookup id = none := by
      have distinct := prepared.columnIds
      rw [List.map_append, List.nodup_append] at distinct
      exact lookup_none fun kept => distinct.2.2 id (List.mem_map.mpr ⟨_, column, rfl⟩) id kept rfl
    rw [around.meaning.viewRef, around.meaning.viewRef]
    simp only [subqueryScope, mergedScope, scopeOf, named, unnamed, Option.map_some, Option.map_none,
      Option.getD_some, Option.getD_none]
    rw [unmerge_derived distinct (joined member) merged, row_value (prepared.names part inParts derived merged) given]
    rfl
  · rintro id ⟨unnamed, -⟩
    simp only [subqueryScope, mergedScope, scopeOf]
    rw [List.lookup_append, lookup_none unnamed, Option.none_or]
    cases found : (around.keptColumns parts).lookup id with
    | none => rfl
    | some column =>
        rw [Option.map_some, Option.map_some, untouched (keptColumns_seen prepared (mem_of_lookup found))]

/-- What a derived table evaluates depends on its base table's row. -/
theorem inner_value (prepared : around.Prepared parts filter) (member : part ∈ parts)
    (merged : derived ∈ part.merged?) {it : Item} (inner : it ∈ derived.items) {columns others : ViewColumns}
    (columnsKept : columns ⊆ mergedColumns parts ++ around.keptColumns parts)
    (othersKept : others ⊆ mergedColumns parts ++ around.keptColumns parts) (base : c derived.base = other derived.base)
    (outside : ∀ id, id ∉ tableIds parts → c id = other id) :
    around.meaning.value (scopeOf columns c) it = around.meaning.value (scopeOf others other) it := by
  refine around.meaning.value_congr (prepared.inner part member derived merged it inner) ?_
    (fun _ _ _ none => none.elim) ?_
  · rintro f (own | local_)
    · simp only [scopeOf, own, base]
    · simp only [scopeOf, outside f.table local_]
  · intro id unnamed
    have missing {columns : ViewColumns} (kept : columns ⊆ mergedColumns parts ++ around.keptColumns parts) :
        columns.lookup id = none :=
      lookup_none fun named => unnamed (List.map_subset _ kept named)
    simp only [scopeOf, missing columnsKept, missing othersKept, Option.map_none]

theorem row_congr {meaning : Meaning} {first second : Scope}
    (same : ∀ output ∈ derived.outputs, meaning.value first output.2 = meaning.value second output.2) :
    derived.row meaning first = derived.row meaning second := by
  funext name
  simp only [MergedTable.row]
  cases found : derived.outputs.find? fun output => output.1.name = name with
  | none => rfl
  | some output => exact same output (List.mem_of_find?_eq_some found)

theorem output_item {output : DerivedColumn × Item} (given : output ∈ derived.outputs) :
    output.2 ∈ derived.items :=
  List.mem_append_left _ (List.mem_map_of_mem given)

theorem kept_subset : around.keptColumns parts ⊆ mergedColumns parts ++ around.keptColumns parts :=
  List.subset_append_right _ _

theorem around_subset : around.columns ⊆ mergedColumns parts ++ around.keptColumns parts :=
  List.Subset.trans (List.subset_append_right _ _) kept_subset

/-- The row of another table changes no merged table's. -/
theorem unmerge_update (prepared : around.Prepared parts filter) {tables : List Part} (sub : tables ⊆ parts)
    {id : TableId} (here : id ∈ tableIds parts) (later : id ∉ tableIds tables) (row : TableRow) :
    around.unmerge parts tables (Function.update c id row) =
      Function.update (around.unmerge parts tables c) id row := by
  induction tables with
  | nil => rfl
  | cons head rest ih =>
      have below := ih (fun part member => sub (List.mem_cons_of_mem _ member))
        fun member => later (by rw [tableIds, List.flatMap_cons]; exact List.mem_append_right _ member)
      cases source : head.source with
      | table | subquery => simpa only [unmerge, source] using below
      | merged derived =>
          have merged : derived ∈ head.merged? := by simp [Part.merged?, source]
          have apart : id ≠ derived.id ∧ id ≠ derived.base := by
            rw [← not_or]
            intro same
            refine later (List.mem_flatMap.mpr ⟨head, List.mem_cons_self, ?_⟩)
            rw [merged_ids merged]
            simpa using same
          have sameRow : derived.row around.meaning (around.mergedScope parts (Function.update c id row)) =
              derived.row around.meaning (around.mergedScope parts c) := by
            refine row_congr fun output given => ?_
            refine inner_value prepared (sub List.mem_cons_self) merged (output_item given) kept_subset kept_subset
              (Function.update_of_ne apart.2.symm _ _) fun other outside => Function.update_of_ne ?_ _ _
            rintro rfl
            exact outside here
          simp only [unmerge, source, below, sameRow]
          rw [Function.update_comm apart.2, Function.update_comm apart.1]

/-- A field reached through references has its table's value. -/
theorem realItem_value {sees : TableId → Prop} {columns : ViewColumns} {attrs : Attrs} {bound : Option Field}
    (meaning : Meaning) : (it : Item) → it.realItem = .field attrs bound →
      (∀ leaf ∈ it.reads, Visible sees (fun _ _ => False) (fun id => columns.lookup id = none) leaf) →
      ∃ f, bound = some f ∧ meaning.value (scopeOf columns c) it = c f.table f.name
  | .field attrs f, real, visible => by
      have seen := visible (.field attrs f) (by simp [Item.reads])
      cases real
      cases seen with
      | field _ => exact ⟨_, rfl, by rw [meaning.field]; rfl⟩
  | .ref attrs type id none, real, _ => by cases real
  | .ref attrs type id (some target), real, visible => by
      have below : (∀ leaf ∈ target.reads, Visible sees (fun _ _ => False) (fun id => columns.lookup id = none) leaf) →
          ∃ f, bound = some f ∧ meaning.value (scopeOf columns c) target = c f.table f.name :=
        realItem_value meaning target real
      by_cases view : type = .viewRef
      · subst view
        have seen := visible (.ref attrs .viewRef id (some target)) (by simp [Item.reads])
        cases seen with
        | given known => exact known.elim
        | through unnamed leaves =>
            obtain ⟨f, rfl, value⟩ := below leaves
            exact ⟨f, rfl, by rw [meaning.viewRef, ← value]; simp [scopeOf, unnamed]⟩
      · rw [meaning.ref _ _ _ _ _ view]
        exact below (by simpa only [Item.reads, if_neg view, optionReads] using visible)
  | .const _ _, real, _ | .null _, real, _ | .param _, real, _ | .func _ _ _ _, real, _ | .cond _ _ _, real, _
  | .sum _ _ _, real, _ | .window _ _ _ _ _ _, real, _ | .subselect _ _ _ _, real, _ | .other _, real, _ => by
      cases real

/-- A row of NULLs is what its items make of a row of NULLs. -/
theorem row_null (prepared : around.Prepared parts filter) (member : part ∈ parts) (merged : derived ∈ part.merged?)
    (fields : ∀ output ∈ derived.outputs, output.2.realItem.isField = true) (null : c derived.base = nullRow) :
    derived.row around.meaning (around.mergedScope parts c) = nullRow := by
  funext name
  simp only [MergedTable.row]
  cases found : derived.outputs.find? fun output => output.1.name = name with
  | none => rfl
  | some output =>
      have given := List.mem_of_find?_eq_some found
      have isField := fields output given
      cases real : output.2.realItem with
      | field attrs bound =>
          have visible : ∀ leaf ∈ output.2.reads, Visible (fun id => id = derived.base ∨ id ∉ tableIds parts)
              (fun _ _ => False) (fun id => (around.keptColumns parts).lookup id = none) leaf := by
            intro leaf read
            refine (prepared.inner part member derived merged output.2 (output_item given) leaf read).imp ?_
            exact fun id unnamed => lookup_none fun named => unnamed (List.map_subset _ kept_subset named)
          obtain ⟨f, rfl, value⟩ := realItem_value around.meaning output.2 real visible
          have own := prepared.own part member derived merged output given attrs f real
          exact value.trans (by rw [own, null]; rfl)
      | _ => simp [real, Item.isField] at isField

/-- Tables not joined yet have the rows of the queries around. -/
def Fresh (around : Around) (tables : List Part) (c : Combination) : Prop :=
  ∀ id, id ∉ tableIds tables → c id = around.combination id

/-- What the WHERE keeps for the table. -/
def Keeps (around : Around) (parts : List Part) (part : Part) (c : Combination) : Prop :=
  around.meaning.takes (around.mergedScope parts c) part.whereItems

def KeepsAll (around : Around) (parts tables : List Part) (c : Combination) : Prop :=
  ∀ part ∈ tables, around.Keeps parts part c

/-- The ON of a table with the condition that moves with it. -/
def filteredOn (around : Around) (parts : List Part) (part : Part) (c : Combination) : Prop :=
  around.meaning.takes (around.mergedScope parts c) part.moved.toList ∧
    around.meaning.takes (around.mergedScope parts c) part.on.toList

theorem filteredOn_iff (c : Combination) :
    (around.meaning.takes (around.mergedScope parts c) part.onItems ∧ around.Keeps parts part c) ↔
      around.filteredOn parts part c := by
  rw [Keeps, filteredOn]
  cases on : part.on <;> cases moved : part.moved <;>
    simp [Meaning.takes, Part.onItems, Part.whereItems, on, moved, and_comm]

section Step

variable {done after : List Part}

theorem split_distinct (prepared : around.Prepared parts filter) (split : parts = done.reverse ++ part :: after) :
    (tableIds (part :: done)).Nodup := by
  have joined : (done.reverse ++ [part]).Sublist parts := by
    rw [split]
    exact (List.singleton_sublist.mpr List.mem_cons_self).append_left _
  have same : (done.reverse ++ [part]).Perm (part :: done) :=
    (List.perm_append_singleton part done.reverse).trans ((List.reverse_perm done).cons part)
  exact (same.flatMap_right Part.ids).nodup_iff.mp (prepared.distinct.sublist (joined.flatMap Part.ids))

theorem split_subset (split : parts = done.reverse ++ part :: after) : part :: done ⊆ parts := by
  intro other member
  rw [split]
  rcases List.mem_cons.mp member with rfl | member
  · simp
  · simp [member]

theorem split_apart (prepared : around.Prepared parts filter) (split : parts = done.reverse ++ part :: after)
    {id : TableId} (own : id ∈ part.ids) : id ∉ tableIds done := by
  have distinct := split_distinct prepared split
  rw [tableIds, List.flatMap_cons, List.nodup_append] at distinct
  exact fun earlier => distinct.2.2 id own id earlier rfl

/-- The ON is the same either way. -/
theorem on_iff (prepared : around.Prepared parts filter) (split : parts = done.reverse ++ part :: after) :
    around.meaning.takes (around.subqueryScope parts (around.unmerge parts (part :: done) c)) part.on.toList ↔
      around.meaning.takes (around.mergedScope parts c) part.on.toList := by
  refine forall_congr' fun it => forall_congr' fun here => ?_
  have reads := prepared.on done.reverse part after split it (Option.mem_toList.mp here)
  rw [Meaning.holds, Meaning.holds,
    value_unmerge prepared reads (by simp) (split_subset split) (split_distinct prepared split)]

/-- A row of a table that is written one way. -/
theorem unmerge_plain (prepared : around.Prepared parts filter) (split : parts = done.reverse ++ part :: after)
    {id : TableId} (own : part.ids = [id]) (merged : part.merged? = none) (row : TableRow) :
    around.unmerge parts (part :: done) (Function.update c id row) =
      Function.update (around.unmerge parts done c) id row := by
  have here : id ∈ part.ids := by simp [own]
  have skipped : around.unmerge parts (part :: done) (Function.update c id row) =
      around.unmerge parts done (Function.update c id row) := by
    cases source : part.source with
    | table | subquery => simp only [unmerge, source]
    | merged derived => simp [Part.merged?, source] at merged
  rw [skipped]
  exact unmerge_update prepared (List.Subset.trans (List.subset_cons_self _ _) (split_subset split))
    (List.mem_flatMap.mpr ⟨part, split_subset split List.mem_cons_self, here⟩) (split_apart prepared split here) row

/-- A row of a merged table. -/
theorem unmerge_merged (prepared : around.Prepared parts filter) (split : parts = done.reverse ++ part :: after)
    (merged : derived ∈ part.merged?) (fresh : around.Fresh done c) (row : TableRow) :
    around.unmerge parts (part :: done) (Function.update c derived.base row) =
      Function.update (around.unmerge parts done c) derived.id
        (derived.row around.meaning (around.mergedScope parts (Function.update c derived.base row))) := by
  have here : derived.base ∈ part.ids := by simp [merged_ids merged]
  have later := split_apart prepared split here
  have sub := split_subset split
  have moved : around.unmerge parts done (Function.update c derived.base row) =
      Function.update (around.unmerge parts done c) derived.base row :=
    unmerge_update prepared (List.Subset.trans (List.subset_cons_self _ _) sub)
      (List.mem_flatMap.mpr ⟨part, sub List.mem_cons_self, here⟩) later row
  have unseen : ¬ Hidden done derived.base := by
    rintro ⟨other, member, otherDerived, otherMerged, hidden⟩
    refine later (List.mem_flatMap.mpr ⟨other, member, ?_⟩)
    rw [merged_ids otherMerged]
    simpa using hidden
  have before : around.combination derived.base = around.unmerge parts done c derived.base := by
    rw [unmerge_other unseen, fresh derived.base later]
  simp only [unmerge, merged_source merged, moved, Function.update_idem, before, Function.update_eq_self]

theorem plain_join (prepared : around.Prepared parts filter) (split : parts = done.reverse ++ part :: after)
    {id : TableId} (own : part.ids = [id]) (merged : part.merged? = none) (outer : Bool) (rows : Multiset Combination) :
    (Joins.Step.table nullRow outer id (around.contents id) fun c =>
        around.meaning.takes (around.subqueryScope parts c) part.on.toList).join
          (rows.map (around.unmerge parts done)) =
      ((Joins.Step.table nullRow outer id (around.contents id) (around.filteredOn parts part)).join rows).map
        (around.unmerge parts (part :: done)) := by
  refine Joins.Step.table_map nullRow outer id id (around.contents id) _ _ _ _
    (fun c _ row => unmerge_plain prepared split own merged row) fun c _ row => ?_
  rw [on_iff prepared split, filteredOn, Part.moved, merged]
  simp [Meaning.takes]

/-- The row a derived table gives is the one its items make of the base
table's. -/
theorem derived_row (prepared : around.Prepared parts filter) (member : part ∈ parts)
    (merged : derived ∈ part.merged?) (fresh : around.Fresh parts c) (row : TableRow) {it : Item}
    (inner : it ∈ derived.items) :
    around.meaning.value (scopeOf around.columns (Function.update around.combination derived.base row)) it =
      around.meaning.value (around.mergedScope parts (Function.update c derived.base row)) it := by
  have here : derived.base ∈ tableIds parts :=
    List.mem_flatMap.mpr ⟨part, member, by simp [merged_ids merged]⟩
  refine inner_value prepared member merged inner around_subset kept_subset ?_ fun id outside => ?_
  · rw [Function.update_self, Function.update_self]
  · have differ : id ≠ derived.base := by
      rintro rfl
      exact outside here
    rw [Function.update_of_ne differ, Function.update_of_ne differ, fresh id outside]

theorem Fresh.mono {fewer more : List Part} (fresh : around.Fresh fewer c) (sub : fewer ⊆ more) :
    around.Fresh more c :=
  fun id outside => fresh id fun member => by
    obtain ⟨part, found, own⟩ := List.mem_flatMap.mp member
    exact outside (List.mem_flatMap.mpr ⟨part, sub found, own⟩)

theorem merged_join (prepared : around.Prepared parts filter) (split : parts = done.reverse ++ part :: after)
    (merged : derived ∈ part.merged?) {outer : Bool}
    (fields : outer = true → ∀ output ∈ derived.outputs, output.2.realItem.isField = true)
    {rows : Multiset Combination} (fresh : ∀ c ∈ rows, around.Fresh done c) :
    (Joins.Step.table nullRow outer derived.id (around.derivedRows derived) fun c =>
        around.meaning.takes (around.subqueryScope parts c) part.on.toList).join
          (rows.map (around.unmerge parts done)) =
      ((Joins.Step.table nullRow outer derived.base (around.contents derived.base)
        (around.filteredOn parts part)).join rows).map (around.unmerge parts (part :: done)) := by
  have sub := split_subset split
  have member : part ∈ parts := sub List.mem_cons_self
  have wider (c : Combination) (found : c ∈ rows) : around.Fresh parts c :=
    (fresh c found).mono (List.Subset.trans (List.subset_cons_self _ _) sub)
  have plain := prepared.plain part member derived merged
  have moved : part.moved = derived.select.filter := by rw [Part.moved, Option.mem_def.mp merged]; rfl
  let inner (row : TableRow) : Scope :=
    scopeOf around.columns (Function.update around.combination derived.base row)
  have rowsSame : around.derivedRows derived = ((around.contents derived.base).filter fun row =>
      around.meaning.takes (inner row) derived.select.filter.toList).map
        fun row => derived.row around.meaning (inner row) := if_pos plain
  rw [rowsSame]
  have row : ∀ c ∈ rows, ∀ row, around.unmerge parts (part :: done) (Function.update c derived.base row) =
      Function.update (around.unmerge parts done c) derived.id (derived.row around.meaning (inner row)) := by
    intro c found row
    rw [unmerge_merged prepared split merged (fresh c found)]
    congr 1
    exact row_congr fun output given =>
      (derived_row prepared member merged (wider c found) row (output_item given)).symm
  have on : ∀ c ∈ rows, ∀ row, (around.meaning.takes (inner row) derived.select.filter.toList ∧
      around.meaning.takes (around.subqueryScope parts
        (around.unmerge parts (part :: done) (Function.update c derived.base row))) part.on.toList) ↔
      around.filteredOn parts part (Function.update c derived.base row) := by
    intro c found row
    rw [on_iff prepared split, filteredOn, moved]
    refine and_congr_left fun _ => forall_congr' fun it => forall_congr' fun here => ?_
    rw [Meaning.holds, Meaning.holds, derived_row prepared member merged (wider c found) row
      (List.mem_append_right _ here)]
  have null : ∀ c ∈ rows, outer = true →
      Function.update (around.unmerge parts done c) derived.id nullRow =
        around.unmerge parts (part :: done) (Function.update c derived.base nullRow) := by
    intro c found left
    rw [unmerge_merged prepared split merged (fresh c found), row_null prepared member merged
      (fields left) (Function.update_self _ _ _)]
  exact Joins.Step.table_join nullRow outer derived.id derived.base (around.contents derived.base) _
    (fun row => derived.row around.meaning (inner row))
    (fun c => around.meaning.takes (around.subqueryScope parts c) part.on.toList) (around.filteredOn parts part)
    (around.unmerge parts done) (around.unmerge parts (part :: done)) row on null

/-- The join of a table is the same either way, with the condition that moves
with a merged one in its ON. -/
theorem step_unmerge (prepared : around.Prepared parts filter) (split : parts = done.reverse ++ part :: after)
    (joinable : Joinable part) {rows : Multiset Combination} (fresh : ∀ c ∈ rows, around.Fresh done c) :
    (around.subqueryStep parts part).join (rows.map (around.unmerge parts done)) =
      (({ around.mergedStep parts part with on := around.filteredOn parts part } : Joins.Step Combination).join rows).map
        (around.unmerge parts (part :: done)) := by
  cases source : part.source with
  | table id name =>
      have own : part.ids = [id] := by simp only [Part.ids, source]
      have joined := plain_join prepared split own (by simp only [Part.merged?, source]) (part.join = some .left) rows
      simpa only [subqueryStep, mergedStep, Part.written, source, Joins.Step.table] using joined
  | subquery id unit columns =>
      have own : part.ids = [id] := by simp only [Part.ids, source]
      have joined := plain_join prepared split own (by simp only [Part.merged?, source]) (part.join = some .left) rows
      simpa only [subqueryStep, mergedStep, Part.written, source, Joins.Step.table] using joined
  | merged derived =>
      have merged : derived ∈ part.merged? := by simp [Part.merged?, source]
      have fields : decide (part.join = some .left) = true → ∀ output ∈ derived.outputs,
          output.2.realItem.isField = true := fun left => (joinable (of_decide_eq_true left)).2 derived merged
      have joined := merged_join prepared split merged fields fresh
      simpa only [subqueryStep, mergedStep, Part.written, source, Joins.Step.table] using joined

end Step

section Run

/-- A step changes the row of one table, of those that the part is. -/
theorem mergedStep_extend {before after : Combination} (joined : after ∈ (around.mergedStep parts part).extend before ∨
    after = (around.mergedStep parts part).complement before) :
    ∃ id ∈ part.ids, ∃ row, after = Function.update before id row := by
  rcases joined with extended | rfl
  · obtain ⟨row, -, rfl⟩ := Multiset.mem_map.mp extended
    exact ⟨part.written, written_own, row, rfl⟩
  · exact ⟨part.written, written_own, nullRow, rfl⟩

/-- What the WHERE keeps for tables joined before does not see the next one. -/
theorem keeps_update (prepared : around.Prepared parts filter) {tables : List Part} (sub : tables ⊆ parts)
    {id : TableId} (here : id ∈ tableIds parts) (later : id ∉ tableIds tables) (row : TableRow) :
    around.KeepsAll parts tables (Function.update c id row) ↔ around.KeepsAll parts tables c := by
  refine forall_congr' fun other => forall_congr' fun member => forall_congr' fun it => forall_congr' fun moved => ?_
  cases found : other.merged? with
  | none => cases on : other.on <;> simp [Part.whereItems, Part.moved, on, found] at moved
  | some derived =>
      have inner : it ∈ derived.items := by
        refine List.mem_append_right _ ?_
        cases on : other.on with
        | none => simpa [Part.whereItems, Part.moved, on, found] using moved
        | some on_ => simp [Part.whereItems, on] at moved
      have differ : derived.base ≠ id := by
        rintro rfl
        exact later (List.mem_flatMap.mpr ⟨other, member, by simp [merged_ids found]⟩)
      have same := inner_value prepared (sub member) found inner kept_subset kept_subset
        (Function.update_of_ne differ row c) fun outside notHere => Function.update_of_ne (by
          rintro rfl
          exact notHere here) row c
      rw [Meaning.holds, Meaning.holds, mergedScope, mergedScope, same]

/-- A condition without an ON is kept by the WHERE as by the ON. -/
theorem filtered_join (joinable : Joinable part) (rows : Multiset Combination) :
    ({ around.mergedStep parts part with on := around.filteredOn parts part } : Joins.Step Combination).join rows =
      ((around.mergedStep parts part).join rows).filter (around.Keeps parts part) := by
  have on : around.filteredOn parts part =
      fun c => (around.mergedStep parts part).on c ∧ around.Keeps parts part c := by
    funext c
    exact propext (filteredOn_iff c).symm
  rw [on]
  cases outer : (around.mergedStep parts part).outer with
  | false => exact Joins.Step.join_filter_on outer _ rows
  | true =>
      have left : part.join = some .left := of_decide_eq_true outer
      obtain ⟨on, some⟩ := Option.isSome_iff_exists.mp (joinable left).1
      have all (c : Combination) : around.Keeps parts part c := by simp [Keeps, Meaning.takes, Part.whereItems, some]
      have same : (fun c => (around.mergedStep parts part).on c ∧ around.Keeps parts part c) =
          (around.mergedStep parts part).on := funext fun c => propext (and_iff_left (all c))
      rw [same, Multiset.filter_eq_self.mpr fun c _ => all c]

/-- The whole FROM: with subqueries it gives what the merged one does, seen
as such, for the combinations that the WHERE keeps for the merged tables. -/
theorem joins_unmerge (prepared : around.Prepared parts filter) (joinable : ∀ part ∈ parts, Joinable part)
    {after done : List Part} (split : parts = done.reverse ++ after) {rows : Multiset Combination}
    (fresh : ∀ c ∈ rows, around.Fresh done c) :
    after.foldl (fun rows part => (around.subqueryStep parts part).join rows)
        ((rows.filter (around.KeepsAll parts done)).map (around.unmerge parts done)) =
      ((after.foldl (fun rows part => (around.mergedStep parts part).join rows) rows).filter
        (around.KeepsAll parts parts)).map (around.unmerge parts parts.reverse) := by
  induction after generalizing done rows with
  | nil =>
      have whole : parts.reverse = done := by rw [split, List.append_nil, List.reverse_reverse]
      rw [List.foldl_nil, List.foldl_nil, whole]
      congr 1
      refine Multiset.filter_congr fun c _ => ?_
      simp only [KeepsAll, ← whole, List.mem_reverse]
  | cons part after ih =>
      have sub := split_subset split
      have doneSub : done ⊆ parts := List.Subset.trans (List.subset_cons_self _ _) sub
      have member : part ∈ parts := sub List.mem_cons_self
      have own {id : TableId} (own : id ∈ part.ids) : id ∈ tableIds parts := List.mem_flatMap.mpr ⟨part, member, own⟩
      have stable {before after : Combination} (joined : after ∈ (around.mergedStep parts part).extend before ∨
          after = (around.mergedStep parts part).complement before) :
          around.KeepsAll parts done after ↔ around.KeepsAll parts done before := by
        obtain ⟨id, here, row, rfl⟩ := mergedStep_extend joined
        exact keeps_update prepared doneSub (own here) (split_apart prepared split here) row
      have next : ∀ c ∈ (around.mergedStep parts part).join rows, around.Fresh (part :: done) c := by
        intro c joined id outside
        obtain ⟨before, found, joined⟩ := Joins.Step.mem_join joined
        obtain ⟨other, here, row, rfl⟩ := mergedStep_extend joined
        rw [tableIds, List.flatMap_cons, List.mem_append, not_or] at outside
        rw [Function.update_of_ne (by rintro rfl; exact outside.1 here)]
        exact fresh before found id outside.2
      have one : (around.subqueryStep parts part).join
            ((rows.filter (around.KeepsAll parts done)).map (around.unmerge parts done)) =
          (((around.mergedStep parts part).join rows).filter (around.KeepsAll parts (part :: done))).map
            (around.unmerge parts (part :: done)) := by
        rw [step_unmerge prepared split (joinable part member) fun c found => fresh c (Multiset.mem_of_mem_filter found),
          filtered_join (joinable part member),
          ← Joins.Step.join_filter _ (fun before after joined => stable (.inl joined)) (fun before => stable (.inr rfl)),
          Multiset.filter_filter]
        congr 1
        exact Multiset.filter_congr fun c _ => by simp only [KeepsAll, List.forall_mem_cons]
      rw [List.foldl_cons, List.foldl_cons, one]
      exact ih (by rw [split]; simp) next

/-- The rows of the FROM and WHERE are the same either way. -/
theorem subqueryRows_eq (prepared : around.Prepared parts filter) (joinable : ∀ part ∈ parts, Joinable part) :
    around.subqueryRows parts filter =
      (around.mergedRows parts filter).map (around.unmerge parts parts.reverse) := by
  have joined := @joins_unmerge _ _ _ prepared joinable parts [] rfl {around.combination}
    fun c found id _ => by rw [Multiset.mem_singleton.mp found]
  have start : (({around.combination} : Multiset Combination).filter (around.KeepsAll parts [])).map
      (around.unmerge parts []) = {around.combination} := by
    rw [Multiset.filter_eq_self.mpr fun c _ => nofun]
    simp [unmerge]
  rw [start] at joined
  rw [subqueryRows, joined, mergedRows, Multiset.filter_map, Multiset.filter_filter]
  congr 1
  refine Multiset.filter_congr fun c _ => ?_
  have whole : (tableIds parts.reverse).Nodup :=
    ((List.reverse_perm parts).flatMap_right Part.ids).nodup_iff.mpr prepared.distinct
  have where_ : around.meaning.takes (around.subqueryScope parts (around.unmerge parts parts.reverse c)) filter.toList ↔
      around.meaning.takes (around.mergedScope parts c) filter.toList := by
    refine forall_congr' fun it => forall_congr' fun here => ?_
    have reads := prepared.filter it (Option.mem_toList.mp here)
    rw [Meaning.holds, Meaning.holds, value_unmerge prepared reads (by simp) (by simp) whole]
  have kept : around.KeepsAll parts parts c ↔
      around.meaning.takes (around.mergedScope parts c) (parts.flatMap Part.whereItems) := by
    simp only [KeepsAll, Keeps, Meaning.takes, List.mem_flatMap]
    exact ⟨fun all it ⟨part, member, here⟩ => all part member it here,
      fun all part member it here => all it ⟨part, member, here⟩⟩
  rw [Function.comp, where_, kept]
  simp only [Meaning.takes, List.forall_mem_append]

end Run

end Around

end StoolapMariadb.SqlGen
