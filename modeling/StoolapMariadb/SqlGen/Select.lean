import StoolapMariadb.Lib.StateExcept
import StoolapMariadb.SqlGen.Gen

namespace StoolapMariadb.SqlGen

/-! Whole SELECTs and query expressions. The walk over the tree hands each
construct its parts with what is to be written for them. -/

open StateExcept
open StoolapMariadb.Types (textIsUtf8)

/-- A table of a join list: whether it is a nest, its ON, and how the nest or
the table itself is written. -/
structure TableChild where
  isNested : Bool
  on : Option Child
  outer : Bool
  semiJoin : Bool
  joinList : GenM (List Joined × List Child)
  tableRef : GenM (Source × Option Child)

def optionalCondition : Option Child → GenM (List Sql)
  | none => return []
  | some it => return [← it.condition]

/-- `join_list`, from its first table on. With it come the WHEREs of merged
derived tables that no ON carries. -/
def joinTables (first : Bool) : List TableChild → GenM (List Joined × List Child)
  | [] => return ([], [])
  | t :: tables => do
      if t.semiJoin then fail "semi-join nest"
      else if first && t.outer then fail "outer join on first table"
      else if first && t.isNested && t.on.isNone then
        let (joined, merged) ← t.joinList
        let (rest, others) ← joinTables false tables
        return (joined ++ rest, merged ++ others)
      else
        let (source, merged) ← t.tableRef
        let join := if first then none else if t.outer then some .left
          else if t.on.isSome then some .inner else some .cross
        match t.on with
        | some on =>
            if first then fail "ON on first table"
            else
              let cond ← on.condition
              let mergedOn ← optionalCondition merged
              let (rest, others) ← joinTables false tables
              return (.mk join source (cond :: mergedOn) :: rest, others)
        | none =>
            if t.outer then fail "outer join without ON"
            else
              let (rest, others) ← joinTables false tables
              return (.mk join source [] :: rest, merged.toList ++ others)

/-- MariaDB keeps a join list in reverse order. -/
def joinList (tables : List TableChild) : GenM (List Joined × List Child) :=
  if tables.isEmpty then fail "empty join list" else joinTables true tables.reverse

/-- `"c0"`, `"c1"`, ... -/
def posName (n : Nat) : String := "c" ++ toString n

/-- The value of a set operation's leg has the result's type, or is an integer
that a DOUBLE result widens. -/
def legValue (distinct : Bool) (want : Cls) (it : Child) : GenM Sql :=
  let have_ := cls it.item
  if !it.item.isNull && have_ ≠ want && !(want = .real && have_ = .int) then
    fail "set operation column types"
  else if distinct && want = .real && have_ = .int then fail "DISTINCT leg widened to DOUBLE"
  else it.branch want

def outputValue (distinct : Bool) (cols : Option (List Cls)) (n : Nat) (it : Child) : GenM Sql :=
  match cols with
  | none => it.expr
  | some cols =>
      match cols[n]? with
      | none => fail "set operation columns"
      | some want => legValue distinct want it

/-- The name of column `n`: among `names`, or by position. -/
def columnName (names : Option (List String)) (n : Nat) : GenM String :=
  match names with
  | none => return posName n
  | some names =>
      match names[n]? with
      | none => fail "derived column names"
      | some name => return name

/-- Names matter only to a derived table's queries and in a leg. -/
def outputName (names : Option (List String)) (leg : Bool) (n : Nat) : GenM (Option String) :=
  if names.isNone && !leg then return none else some <$> columnName names n

/-- The select list from item `n` on. -/
def outputs (distinct : Bool) (names : Option (List String)) (cols : Option (List Cls)) (n : Nat) :
    List Child → GenM (List Output)
  | [] => return []
  | it :: items => do
      if distinct && !orderable (← get).trustBin it.item then fail "DISTINCT type"
      else if it.item.cmpType = .string && !textIsUtf8 it.item.attrs.collation && !it.item.realItem.isField then
        fail "binary / non-utf8 string result"
      else
        let value ← outputValue distinct cols n it
        let name ← outputName names cols.isSome n
        return .mk value name :: (← outputs distinct names cols (n + 1) items)

/-- The select list, `none` for `1`: without aggregates an EXISTS sees rows
whatever the list holds. -/
def selectList (anyRow : Bool) (names : Option (List String)) (cols : Option (List Cls)) (flags : SelectFlags)
    (items : List Child) : GenM (Option (List Output)) :=
  if anyRow && !flags.withSumFunc then return none
  else some <$> outputs flags.distinct names cols 0 items

def limit : Option LimitParams → GenM (Option Limit)
  | none => return none
  | some params => do
      match params.selectLimit with
      | none => fail "LIMIT value"
      | some rows =>
          if !rows.constItem || rows.isNull then fail "LIMIT value"
          else
            match params.offsetLimit with
            | none => return some ⟨rows.value, none⟩
            | some offset =>
                if !offset.constItem || offset.isNull then fail "OFFSET value"
                else return some ⟨rows.value, some offset.value⟩

/-- The parts of a SELECT, each with what is to be written for it. -/
structure SelectChild where
  from_ : GenM (List Joined × List Child)
  noTable : Bool
  items : List Child
  filter : Option Child
  group : List OrderChild
  having : Option Child
  order : List OrderChild

/-- The keys MariaDB sorts by: the ORDER BY's, or the group keys when that is
constant and the order of the groups can be seen. -/
def sortKeys (top : Bool) (flags : SelectFlags) (parts : SelectChild) : List OrderChild :=
  if !parts.order.all fun key => key.child.item.constItem then parts.order
  else if top || flags.limit.isSome then parts.group
  else []

def selectParts (top : Bool) (names : Option (List String)) (cols : Option (List Cls)) (flags : SelectFlags)
    (parts : SelectChild) : GenM Query := do
  if flags.olap then fail "WITH ROLLUP"
  else if flags.tvc then fail "VALUES"
  else
    let anyRow := (← get).existsList
    modify fun g => { g with existsList := false }
    if flags.withTies then fail "WITH TIES"
    else if flags.foundRows then fail "SQL_CALC_FOUND_ROWS"
    else if parts.noTable then fail "no table"
    else
      let (joined, merged) ← parts.from_
      let list ← selectList anyRow names cols flags parts.items
      let filters ← conditions (parts.filter.toList ++ merged)
      let groupBy ← orderList false parts.group
      let having ← optionalCondition parts.having
      let orderBy ← orderList true (sortKeys top flags parts)
      let rows ← limit flags.limit
      return .select (list.isSome && flags.distinct) list joined filters groupBy having.head? orderBy rows

def Select.flags : Select → SelectFlags
  | .mk flags _ _ _ _ _ _ => flags

def Select.items : Select → List Item
  | .mk _ _ items _ _ _ _ => items

def Select.orderIsEmpty : Select → Bool
  | .mk _ _ _ _ _ _ orderList => orderList.isEmpty

/-- The one base table of a derived table MariaDB would merge. -/
def mergeableBase (aliases : List (TableId × String)) (outerInner recursive : Bool) :
    List Select → Option (TableId × String)
  | .mk flags [.mk (.base id name) none false _] items _ _ _ _ :: _ =>
      if !flags.mergeable || flags.haveWindowFuncs || flags.tvc || flags.olap || flags.uncacheableRand ||
          recursive then none
      -- A NULL-complemented row reads NULL in every column of the base
      -- table, not in a constant or an expression.
      else if outerInner && !items.all fun it => it.realItem.isField then none
      else if (aliases.lookup id).isSome then none
      else some (id, name)
  | _ => none

def baseRef (id : TableId) (name : String) : GenM Source := do
  let tableAlias := "t" ++ toString (← get).nextAlias
  modify fun g => { g with nextAlias := g.nextAlias + 1, aliases := (id, tableAlias) :: g.aliases }
  return .table name tableAlias

/-- A derived table: merged, with its WHERE for the caller, or a subquery whose
columns queries read by name. -/
def derivedRef (id : TableId) (selects : List Select) (recursive outerInner : Bool)
    (columns : Option (List DerivedColumn)) (filter : Option Child)
    (unit : Option (List String) → GenM Query) : GenM (Source × Option Child) := do
  match mergeableBase (← get).aliases outerInner recursive selects with
  | some (base, name) => return (← baseRef base name, filter)
  | none =>
      match columns with
      | none => fail "derived without columns"
      | some columns =>
          let tableAlias := "d" ++ toString (← get).nextAlias
          let seen := columns.filterMap fun column => column.item.map fun item => (item, tableAlias, column.name)
          modify fun g => { g with nextAlias := g.nextAlias + 1, aliases := (id, tableAlias) :: g.aliases,
                                   viewCols := seen.reverse ++ g.viewCols }
          return (.derived (← unit (some (columns.map DerivedColumn.name))) tableAlias, none)

/-- A reference: the text of a derived table's column, or what it refers to. -/
def reference (type : RefType) (id : ItemId) (target : Option Child) : GenM Sql := do
  if type = .other then fail "reference type"
  else
    match target with
    | none => fail "dangling reference"
    | some target =>
        match (← get).viewCols.lookup id, type with
        | some (tableAlias, name), .viewRef => return .column tableAlias name
        | _, _ => target.expr

def setOp : Linkage → GenM SetOp
  | .union => return .union
  | .intersect => return .intersect
  | .except => return .except
  | .other => fail "set operation"

/-- A SELECT of a query expression, written as a leg of the given columns. -/
structure SelectGen where
  select : Select
  write : Option (List String) → Option (List Cls) → GenM Query

def legQuery (names : Option (List String)) (cols : List Cls) (leg : SelectGen) : GenM Query :=
  if !leg.select.orderIsEmpty || leg.select.flags.limit.isSome then
    fail "set operation leg ORDER BY / LIMIT"
  else if leg.select.items.length ≠ cols.length then fail "set operation columns"
  else leg.write names (some cols)

def laterLegs (cols : List Cls) : List SelectGen → GenM (List Leg)
  | [] => return []
  | leg :: legs => do
      let op ← setOp leg.select.flags.linkage
      let query ← legQuery none cols leg
      return .mk op (!leg.select.flags.distinctLeg) query :: (← laterLegs cols legs)

/-- The result columns' classes: all known, and orderable when rows are
compared by them. -/
def legTypes (dedup : Bool) : List Item → GenM (List Cls)
  | [] => return []
  | it :: types => do
      if cls it = .unsafe_ then fail "set operation column type"
      else if dedup && !orderable (← get).trustBin it then fail "set operation compare type"
      else return cls it :: (← legTypes dedup types)

/-- The ORDER BY of all the legs, by position. -/
def legsOrder (names : Option (List String)) (cols fields : Nat) :
    List LegsOrder → GenM (List (String × Bool))
  | [] => return []
  | .mk it fieldIndex descending :: keys => do
      if !it.realItem.isField then fail "order item"
      else
        match fieldIndex with
        | none => fail "set operation ORDER BY"
        | some index =>
            -- INTERSECT and EXCEPT keep hidden columns in front.
            let hidden := fields - cols
            if fields < cols || index < hidden || index - hidden ≥ cols then fail "set operation ORDER BY"
            else if !orderable (← get).trustBin it then fail "ORDER / GROUP type"
            else
              let name ← columnName names (index - hidden)
              return (name, descending) :: (← legsOrder names cols fields keys)

def unitParts (names : Option (List String)) (recursive : Bool) (types : List Item) (fields : Nat)
    (order : List LegsOrder) (withTies : Bool) (rows : Option LimitParams) (selects : List SelectGen) :
    GenM Query := do
  match selects with
  | [] => fail "empty query expression"
  | [only] => only.write names none
  | first :: legs =>
      if recursive then fail "recursive CTE"
      else
        modify fun g => { g with existsList := false }
        let dedup := legs.any fun leg => leg.select.flags.distinctLeg || leg.select.flags.linkage ≠ .union
        let cols ← legTypes dedup types
        let head ← legQuery names cols first
        let rest ← laterLegs cols legs
        if withTies then fail "WITH TIES"
        else
          let keys ← legsOrder names cols.length fields order
          return .legs head rest keys (← limit rows)

mutual

/-- What is written for an item, as a condition or a value. -/
def node : Item → GenM Sql
  | .field _ f => field f
  | .ref _ type id target => reference type id (optional target)
  | .const attrs value => literal (.const attrs value)
  | .null attrs => literal (.null attrs)
  | .param _ => fail "parameter without a value"
  | .func attrs variant type args => func (.func attrs variant type args) variant type (children args)
  | .cond _ type args => cond type (children args)
  | .sum _ f args => sum f (children args) false
  | .window _ f args partition order frame =>
      window f (children args) (orderChildren partition) (orderChildren order) frame
  | .subselect _ type left unit => subselect type (optional left) unit (SelectUnit.write none unit)
  | .other _ => fail "item type"

/-- The query of a subselect that another item wraps. -/
def query : Item → GenM Query
  | .subselect _ _ _ unit => SelectUnit.write none unit
  | _ => fail "item type"

def optional : Option Item → Option Child
  | none => none
  | some it => some ⟨it, node it, query it⟩

def children : List Item → List Child
  | [] => []
  | it :: items => ⟨it, node it, query it⟩ :: children items

def orderChildren : List Order → List OrderChild
  | [] => []
  | .mk it descending :: keys => ⟨⟨it, node it, query it⟩, descending⟩ :: orderChildren keys

def Select.write (top : Bool) (names : Option (List String)) (cols : Option (List Cls)) : Select → GenM Query
  | .mk flags topJoinList items filter groupList having orderList =>
      selectParts top names cols flags
        { from_ := joinList (tableChildren topJoinList)
          noTable := topJoinList.isEmpty
          items := children items
          filter := optional filter
          group := orderChildren groupList
          having := optional having
          order := orderChildren orderList }

def selectGens : List Select → List SelectGen
  | [] => []
  | select :: selects => ⟨select, fun names cols => Select.write false names cols select⟩ :: selectGens selects

def SelectUnit.write (names : Option (List String)) : SelectUnit → GenM Query
  | .mk selects recursive types fields order withTies rows =>
      unitParts names recursive types fields order withTies rows (selectGens selects)

/-- The WHERE of the first SELECT. -/
def firstFilter : List Select → Option Child
  | .mk _ _ _ filter _ _ _ :: _ => optional filter
  | [] => none

def tableChildren : List TableList → List TableChild
  | [] => []
  | .mk kind on outer semiJoin :: tables =>
      { isNested := kind.isNested, on := optional on, outer, semiJoin,
        joinList := TableKind.joinTables kind, tableRef := TableKind.ref outer kind } :: tableChildren tables

def TableKind.joinTables : TableKind → GenM (List Joined × List Child)
  | .nested tables => joinList (tableChildren tables)
  | _ => fail "empty join list"

/-- `table_ref`. -/
def TableKind.ref (outer : Bool) : TableKind → GenM (Source × Option Child)
  | .derived id (.mk selects recursive types fields order withTies rows) columns embeddedOuter =>
      derivedRef id selects recursive (outer || embeddedOuter) columns (firstFilter selects) fun names =>
        unitParts names recursive types fields order withTies rows (selectGens selects)
  | .nested _ => fail "parenthesized join"
  | .unopened => fail "table without share"
  | .base id name => return (← baseRef id name, none)

end

theorem optional_item (it : Option Item) : (optional it).map Child.item = it := by
  cases it <;> rfl

theorem children_items (items : List Item) : (children items).map Child.item = items := by
  induction items with
  | nil => rfl
  | cons it items ih => rw [children, List.map_cons, ih]

/-- The clauses of a SELECT with what is written for each, one after the other;
`merged` are the conditions that the FROM leaves to the WHERE. -/
inductive ClausesWritten (top anyRow : Bool) (names : Option (List String)) (cols : Option (List Cls)) :
    Select → Gen → List Child → Query → Prop where
  | mk {flags tables items filter groupList having orderList start joined merged list filters groupBy havings orderBy
      rows fromLast listLast filterLast groupLast havingLast orderLast last}
      (fromRan : joinList (tableChildren tables) start = .ok ((joined, merged), fromLast))
      (listRan : selectList anyRow names cols flags (children items) fromLast = .ok (list, listLast))
      (filterRan : conditions ((optional filter).toList ++ merged) listLast = .ok (filters, filterLast))
      (groupRan : SqlGen.orderList false (orderChildren groupList) filterLast = .ok (groupBy, groupLast))
      (havingRan : optionalCondition (optional having) groupLast = .ok (havings, havingLast))
      (orderRan : SqlGen.orderList true
        (sortKeys top flags ⟨joinList (tableChildren tables), tables.isEmpty, children items, optional filter,
          orderChildren groupList, optional having, orderChildren orderList⟩) havingLast = .ok (orderBy, orderLast))
      (limitRan : limit flags.limit orderLast = .ok (rows, last)) :
      ClausesWritten top anyRow names cols (.mk flags tables items filter groupList having orderList) start merged
        (.select (list.isSome && flags.distinct) list joined filters groupBy havings.head? orderBy rows)

/-- Only the list asks whether the SELECT is an EXISTS's. -/
theorem select_written {top : Bool} {names : Option (List String)} {cols : Option (List Cls)} {sel : Select}
    {g after : Gen} {query : Query} (accepted : Select.write top names cols sel g = .ok (query, after)) :
    ∃ merged, ClausesWritten top g.existsList names cols sel { g with existsList := false } merged query := by
  obtain ⟨flags, tables, items, filter, groupList, having, orderList⟩ := sel
  rw [Select.write, selectParts] at accepted
  split at accepted
  · exact (throw_ok.mp accepted).elim
  · split at accepted
    · exact (throw_ok.mp accepted).elim
    · obtain ⟨state, started, read, ran⟩ := bind_ok.mp accepted
      obtain ⟨rfl, rfl⟩ := get_ok.mp read
      obtain ⟨_, cleared, clear, ran⟩ := bind_ok.mp ran
      obtain rfl := modify_ok.mp clear
      split at ran
      · exact (throw_ok.mp ran).elim
      · split at ran
        · exact (throw_ok.mp ran).elim
        · split at ran
          · exact (throw_ok.mp ran).elim
          · obtain ⟨⟨joined, merged⟩, fromLast, fromRan, ran⟩ := bind_ok.mp ran
            obtain ⟨list, listLast, listRan, ran⟩ := bind_ok.mp ran
            obtain ⟨filters, filterLast, filterRan, ran⟩ := bind_ok.mp ran
            obtain ⟨groupBy, groupLast, groupRan, ran⟩ := bind_ok.mp ran
            obtain ⟨havings, havingLast, havingRan, ran⟩ := bind_ok.mp ran
            obtain ⟨orderBy, orderLast, orderRan, ran⟩ := bind_ok.mp ran
            obtain ⟨rows, last, limitRan, ran⟩ := bind_ok.mp ran
            obtain ⟨rfl, -⟩ := pure_ok.mp ran
            exact ⟨merged, .mk fromRan listRan filterRan groupRan havingRan orderRan limitRan⟩

/-- As many conditions are written as there are. -/
theorem conditions_length {args : List Child} {g after : Gen} {sqls : List Sql}
    (ran : conditions args g = .ok (sqls, after)) : sqls.length = args.length := by
  induction args generalizing g after sqls with
  | nil =>
      obtain ⟨rfl, -⟩ := pure_ok.mp ran
      rfl
  | cons arg args ih =>
      obtain ⟨sql, middle, -, ran⟩ := bind_ok.mp ran
      obtain ⟨rest, last, restRan, ran⟩ := bind_ok.mp ran
      obtain ⟨rfl, -⟩ := pure_ok.mp ran
      rw [List.length_cons, List.length_cons, ih restRan]

theorem orderList_length {directions : Bool} {keys : List OrderChild} {g after : Gen} {written : List Key}
    (ran : orderList directions keys g = .ok (written, after)) : written.length = keys.length := by
  induction keys generalizing g after written with
  | nil =>
      obtain ⟨rfl, -⟩ := pure_ok.mp ran
      rfl
  | cons key keys ih =>
      obtain ⟨state, started, -, ran⟩ := bind_ok.mp ran
      split at ran
      · exact (throw_ok.mp ran).elim
      · obtain ⟨value, middle, -, ran⟩ := bind_ok.mp ran
        obtain ⟨rest, last, restRan, ran⟩ := bind_ok.mp ran
        obtain ⟨rfl, -⟩ := pure_ok.mp ran
        rw [List.length_cons, List.length_cons, ih restRan]

section Any

variable {inv : Gen → Prop}

theorem frameBound_any (bound : Bound) : Yields inv (frameBound bound) fun _ => True := by
  cases bound with
  | current | unbounded => exact .pure trivial
  | offset => exact .ite (fun _ => .throw) fun _ => .pure trivial

theorem columnName_any (names : Option (List String)) (n : Nat) :
    Yields inv (columnName names n) fun _ => True := by
  unfold columnName
  split
  · exact .pure trivial
  · split
    · exact .throw
    · exact .pure trivial

theorem outputName_any (names : Option (List String)) (leg : Bool) (n : Nat) :
    Yields inv (outputName names leg n) fun _ => True :=
  .ite (fun _ => .pure trivial) fun _ => (columnName_any names n).map fun _ => id

theorem limit_any (params : Option LimitParams) : Yields inv (limit params) fun _ => True := by
  unfold limit
  split
  · exact .pure trivial
  · split
    · exact .throw
    · refine .ite (fun _ => .throw) fun _ => ?_
      split
      · exact .pure trivial
      · exact .ite (fun _ => .throw) fun _ => .pure trivial

theorem checkColumns_any (trustBin : Bool) (left : Item) (legs : List (List Item)) :
    Yields inv (checkColumns trustBin left legs) fun _ => True := by
  induction legs with
  | nil => exact .pure trivial
  | cons items legs ih =>
      rcases items with _ | ⟨it, _ | ⟨other, items⟩⟩
      · exact .throw
      · exact .ite (fun _ => ih) fun _ => .throw
      · exact .throw

theorem legTypes_any (dedup : Bool) (types : List Item) :
    Yields inv (legTypes dedup types) fun _ => True := by
  induction types with
  | nil => exact .pure trivial
  | cons t types ih =>
      exact .ite (fun _ => .throw) fun _ => .read fun _ _ => .ite (fun _ => .throw) fun _ => ih.bind fun _ _ => .pure trivial

theorem legsOrder_any (names : Option (List String)) (cols fields : Nat) (keys : List LegsOrder) :
    Yields inv (legsOrder names cols fields keys) fun _ => True := by
  induction keys with
  | nil => exact .pure trivial
  | cons key keys ih =>
      obtain ⟨it, fieldIndex, descending⟩ := key
      refine .ite (fun _ => .throw) fun _ => ?_
      split
      · exact .throw
      · exact .ite (fun _ => .throw) fun _ => .read fun _ _ => .ite (fun _ => .throw) fun _ =>
          (columnName_any names _).bind fun _ _ => ih.bind fun _ _ => .pure trivial

theorem setOp_any (linkage : Linkage) : Yields inv (setOp linkage) fun _ => True := by
  cases linkage with
  | union | intersect | except => exact .pure trivial
  | other => exact .throw

end Any

end StoolapMariadb.SqlGen
