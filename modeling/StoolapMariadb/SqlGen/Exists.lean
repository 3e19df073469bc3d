import StoolapMariadb.Lib.SelectRows
import StoolapMariadb.Lib.StateExcept
import StoolapMariadb.SqlGen.Eval

namespace StoolapMariadb.SqlGen

/-! An EXISTS's SELECT, written with `1` for its list and its DISTINCT. -/

open StateExcept
open SelectRows (Clauses)

/-- What MariaDB evaluates a SELECT with, around an outer row: the rows of a
FROM, values of items for the rows of a group, when two are the same under the
item's collation, conditions, and the order of an ORDER BY. -/
structure Database (κ : Type) where
  joined : List TableList → List κ
  value : List κ → Item → Value
  same : Item → Value → Value → Bool
  takes : List κ → Item → Bool
  before : List Order → List κ → List κ → Bool

/-- What stoolap evaluates a query with. -/
structure Store (κ : Type) where
  joined : List Joined → List κ
  value : List κ → Sql → Value
  same : Value → Value → Bool
  takes : List κ → Sql → Bool
  before : List Key → List κ → List κ → Bool

variable {κ : Type}

def Order.item : Order → Item
  | .mk it _ => it

def Key.value : Key → Sql
  | .mk value _ => value

def Database.clauses (db : Database κ) : Select → Clauses κ
  | .mk flags tables _ filter groupList having orderList =>
      { rows := (db.joined tables).filter fun row => filter.all (db.takes [row])
        sameGroup :=
          if groupList.isEmpty then none
          else some fun left right => groupList.all fun key =>
            db.same key.item (db.value [left] key.item) (db.value [right] key.item)
        having := fun rows => having.all (db.takes rows)
        before := db.before orderList
        limit := (flags.limit.bind LimitParams.selectLimit).map LimitValue.value
        offset := ((flags.limit.bind LimitParams.offsetLimit).map LimitValue.value).getD 0 }

/-- Two rows of a DISTINCT that are the same in every column. -/
def Database.sameRow (db : Database κ) : List Item → List Value → List Value → Bool
  | it :: items, left :: lefts, right :: rights => db.same it left right && db.sameRow items lefts rights
  | _, _, _ => true

/-- DISTINCT, if the SELECT has it. -/
def Database.dedup (db : Database κ) (sel : Select) : Option (List Value → List Value → Bool) :=
  if sel.flags.distinct then some (db.sameRow sel.items) else none

def Database.list (db : Database κ) (sel : Select) (rows : List κ) : List Value := sel.items.map (db.value rows)

/-- The rows of the SELECT as MariaDB has it. -/
def Database.select (db : Database κ) (sel : Select) : List (List Value) :=
  (db.clauses sel).select (db.dedup sel) (db.list sel)

def Store.clauses (store : Store κ) (joined : List Joined) (filters : List Sql) (groupBy : List Key)
    (having : Option Sql) (orderBy : List Key) (limit : Option Limit) : Clauses κ where
  rows := (store.joined joined).filter fun row => filters.all (store.takes [row])
  sameGroup :=
    if groupBy.isEmpty then none
    else some fun left right => groupBy.all fun key =>
      store.same (store.value [left] key.value) (store.value [right] key.value)
  having := fun rows => having.all (store.takes rows)
  before := store.before orderBy
  limit := limit.map Limit.rows
  offset := (limit.bind Limit.offset).getD 0

/-- The values of an output row, `1` for the list of an EXISTS. -/
def Store.list (store : Store κ) (list : Option (List Output)) (rows : List κ) : List Value :=
  match list with
  | none => [some (.integer 1)]
  | some outputs => outputs.map fun output => store.value rows output.value

def Store.sameRow (store : Store κ) : List Value → List Value → Bool
  | left :: lefts, right :: rights => store.same left right && store.sameRow lefts rights
  | _, _ => true

/-- The rows of one SELECT. -/
def Store.select (store : Store κ) : Query → Option (List (List Value))
  | .select distinct list joined filters groupBy having orderBy limit =>
      some ((store.clauses joined filters groupBy having orderBy limit).select
        (if distinct then some store.sameRow else none) (store.list list))
  | .legs _ _ _ _ => none

/-- What is written for a condition takes the rows and groups it takes. -/
def TakesSame (db : Database κ) (store : Store κ) (it : Item) (sql : Sql) : Prop :=
  ∀ rows, store.takes rows sql = db.takes rows it

/-- What is written for a key tells the rows apart that it does. -/
def GroupsSame (db : Database κ) (store : Store κ) (order : Order) (key : Key) : Prop :=
  ∀ left right, store.same (store.value [left] key.value) (store.value [right] key.value) =
    db.same order.item (db.value [left] order.item) (db.value [right] order.item)

/-- What each clause that is written means, by itself: the joins are those of the
FROM, for the rows that the conditions left to the WHERE take, a condition is
that of the clause in whose place it stands, and a key groups as its own. -/
def MeansSame (db : Database κ) (store : Store κ) (merged : List Child) : Select → Query → Prop
  | .mk _ tables _ filter groupList having _, .select _ _ joined filters groupBy havingSql _ _ =>
      (store.joined joined).filter (fun row => merged.all fun it => db.takes [row] it.item) = db.joined tables ∧
        (∀ pair ∈ (filter.toList ++ merged.map Child.item).zip filters, TakesSame db store pair.1 pair.2) ∧
        (∀ pair ∈ groupList.zip groupBy, GroupsSame db store pair.1 pair.2) ∧
        ∀ pair ∈ having.toList.zip havingSql.toList, TakesSame db store pair.1 pair.2
  | _, .legs _ _ _ _ => True

/-- How many rows the original SELECT has before LIMIT and OFFSET, those of its
DISTINCT and all. -/
def Database.distinctCount (db : Database κ) (sel : Select) : Nat :=
  ((db.clauses sel).listed (db.dedup sel) (db.list sel)).length

def Database.rowCount (db : Database κ) (sel : Select) : Nat := (db.clauses sel).kept.length

/-- The limit as it is written. -/
theorem limit_written {limitParams : Option LimitParams} {g after : Gen} {rows : Option Limit}
    (ran : limit limitParams g = .ok (rows, after)) :
    rows.map Limit.rows = (limitParams.bind LimitParams.selectLimit).map LimitValue.value ∧
      (rows.bind Limit.offset).getD 0 =
        ((limitParams.bind LimitParams.offsetLimit).map LimitValue.value).getD 0 := by
  cases limitParams with
  | none =>
      obtain ⟨rfl, -⟩ := pure_ok.mp ran
      exact ⟨rfl, rfl⟩
  | some params =>
      obtain ⟨selectLimit, offsetLimit⟩ := params
      cases selectLimit with
      | none => exact (throw_ok.mp ran).elim
      | some value =>
          unfold limit at ran
          simp only at ran
          split at ran
          · exact (throw_ok.mp ran).elim
          · cases offsetLimit with
            | none =>
                obtain ⟨rfl, -⟩ := pure_ok.mp ran
                exact ⟨rfl, rfl⟩
            | some offset =>
                simp only at ran
                split at ran
                · exact (throw_ok.mp ran).elim
                · obtain ⟨rfl, -⟩ := pure_ok.mp ran
                  exact ⟨rfl, rfl⟩

theorem all_zip {α β : Type} {left : List α} {right : List β} {first : α → Bool} {second : β → Bool}
    (lengths : right.length = left.length) (same : ∀ pair ∈ left.zip right, second pair.2 = first pair.1) :
    right.all second = left.all first := by
  induction left generalizing right with
  | nil =>
      rw [List.length_eq_zero_iff.mp lengths]
      rfl
  | cons one left ih =>
      cases right with
      | nil => cases lengths
      | cons other right =>
          obtain ⟨here, later⟩ := List.forall_mem_cons.mp same
          rw [List.all_cons, List.all_cons, here, ih (Nat.succ_inj.mp lengths) later]

theorem orderChildren_length (keys : List Order) : (orderChildren keys).length = keys.length := by
  induction keys with
  | nil => rfl
  | cons key keys ih =>
      obtain ⟨it, descending⟩ := key
      rw [orderChildren, List.length_cons, List.length_cons, ih]

/-- The clauses written have the rows of the SELECT's own before its list. -/
theorem ClausesWritten.agrees {top anyRow : Bool} {names : Option (List String)} {cols : Option (List Cls)}
    {sel : Select} {start : Gen} {merged : List Child} {distinct : Bool} {list : Option (List Output)}
    {joined : List Joined} {filters : List Sql} {groupBy orderBy : List Key} {having : Option Sql} {rows : Option Limit}
    (written : ClausesWritten top anyRow names cols sel start merged
      (.select distinct list joined filters groupBy having orderBy rows))
    {db : Database κ} {store : Store κ}
    (means : MeansSame db store merged sel (.select distinct list joined filters groupBy having orderBy rows)) :
    (store.clauses joined filters groupBy having orderBy rows).Agrees (db.clauses sel) := by
  cases written with
  | @mk flags tables items filter groupList havingItem orderList start joined merged list filters groupBy havings orderBy
      rows _ _ _ _ _ _ _ fromRan listRan filterRan groupRan havingRan orderRan limitRan =>
      obtain ⟨joins, filtering, grouping, taking⟩ := means
      obtain ⟨limits, offsets⟩ := limit_written limitRan
      have filtersLength := conditions_length filterRan
      have groupLength := (orderList_length groupRan).trans (orderChildren_length groupList)
      refine ⟨?_, ?_, ?_, limits, offsets⟩
      · have takes (row : κ) : filters.all (store.takes [row]) =
            (filter.all (db.takes [row]) && merged.all fun it => db.takes [row] it.item) := by
          rw [@all_zip _ _ (filter.toList ++ merged.map Child.item) filters (db.takes [row]) _
            (by cases filter <;> simpa [optional] using filtersLength) fun pair isPair => filtering pair isPair [row]]
          cases filter <;> simp [List.all_map, Function.comp_def]
        change (store.joined joined).filter (fun row => filters.all (store.takes [row])) =
          (db.joined tables).filter fun row => filter.all (db.takes [row])
        rw [← joins, List.filter_filter]
        exact List.filter_congr fun row _ => takes row
      · have groups (left right : κ) : (groupBy.all fun key =>
              store.same (store.value [left] key.value) (store.value [right] key.value)) =
            groupList.all fun key => db.same key.item (db.value [left] key.item) (db.value [right] key.item) :=
          all_zip groupLength fun pair isPair => grouping pair isPair left right
        have empty : groupBy.isEmpty = groupList.isEmpty := by
          rw [Bool.eq_iff_iff, List.isEmpty_iff_length_eq_zero, groupLength, List.isEmpty_iff_length_eq_zero]
        simp only [Store.clauses, Database.clauses, empty, groups]
      · funext rows
        change havings.head?.all (store.takes rows) = havingItem.all (db.takes rows)
        cases havingItem with
        | none =>
            obtain ⟨rfl, -⟩ := pure_ok.mp havingRan
            rfl
        | some it =>
            obtain ⟨sql, middle, -, ran⟩ := bind_ok.mp havingRan
            obtain ⟨rfl, -⟩ := pure_ok.mp ran
            exact taking (it, sql) List.mem_cons_self rows

/-- Under EXISTS only the list of the SELECT, with its DISTINCT, is not written,
and then it has a row just when the original one has, except where that one's
DISTINCT leaves no row past the OFFSET and without it there is one. -/
theorem exists_rewrite_keeps_emptiness_iff {top : Bool} {names : Option (List String)} {cols : Option (List Cls)}
    {sel : Select} {g after : Gen} {query : Query} (accepted : Select.write top names cols sel g = .ok (query, after))
    (underExists : g.existsList = true) (plain : sel.flags.withSumFunc = false) :
    (∃ joined filters groupBy having orderBy rows,
      query = .select false none joined filters groupBy having orderBy rows) ∧
    ∃ merged, ClausesWritten top true names cols sel { g with existsList := false } merged query ∧
      ∀ (κ : Type) (db : Database κ) (store : Store κ), MeansSame db store merged sel query →
        ∃ rows, store.select query = some rows ∧
          ((rows ≠ [] ↔ db.select sel ≠ []) ↔
            ¬ ((db.clauses sel).limit ≠ some 0 ∧ db.distinctCount sel ≤ (db.clauses sel).offset ∧
              (db.clauses sel).offset < db.rowCount sel)) := by
  obtain ⟨merged, written⟩ := select_written accepted
  rw [underExists] at written
  have bare : ∃ joined filters groupBy having orderBy rows,
      query = .select false none joined filters groupBy having orderBy rows := by
    cases written with
    | mk fromRan listRan filterRan groupRan havingRan orderRan limitRan =>
        rw [Select.flags] at plain
        rw [selectList, plain] at listRan
        obtain ⟨rfl, -⟩ := pure_ok.mp listRan
        exact ⟨_, _, _, _, _, _, rfl⟩
  refine ⟨bare, merged, written, fun κ db store means => ?_⟩
  obtain ⟨joined, filters, groupBy, having, orderBy, rows, rfl⟩ := bare
  exact ⟨_, rfl, Clauses.select_plain_iff (written.agrees means) _ _ _⟩

/-- Without DISTINCT nothing is dropped, so the condition never fails. -/
theorem rowCount_eq_distinctCount (db : Database κ) {sel : Select} (all : sel.flags.distinct = false) :
    db.distinctCount sel = db.rowCount sel := by
  rw [Database.distinctCount, Database.dedup, all]
  exact Clauses.length_listed _ _

/-- `SELECT DISTINCT a FROM t LIMIT 1 OFFSET 1`. -/
def secondDistinct : Select :=
  .mk { olap := false, tvc := false, withTies := false, foundRows := false, distinct := true, withSumFunc := false,
        mergeable := false, haveWindowFuncs := false, uncacheableRand := false, linkage := .other,
        distinctLeg := false, limit := some ⟨some ⟨true, false, 1⟩, some ⟨true, false, 1⟩⟩ }
    [.mk (.base 0 "t") none false false]
    [.field { cmpType := .int, unsignedFlag := false, collation := none, boolType := false, basicConst := false,
              constItem := false, maybeNull := true, maxLength := 11, cols := 1 }
      (some { realType := .long, charset := none, isTraditionalScalarType := true, fieldIndex := 0, table := 0,
              name := "a", isUnsigned := false, notNull := false, decimals := 0, charLength := 11, fieldLength := 4 })]
    none [] none []

/-- A table by the values of its one column. -/
def oneColumn (values : List Int64) : Database Int64 where
  joined _ := values
  value rows _ := rows.head?.map Scalar.integer
  same _ left right := left = right
  takes _ _ := true
  before _ _ _ := false

def oneColumnStore (values : List Int64) : Store Int64 where
  joined _ := values
  value rows _ := rows.head?.map Scalar.integer
  same left right := left = right
  takes _ _ := true
  before _ _ _ := false

def underExists : Gen := { newGen false with existsList := true }

/-- Nothing is left to the WHERE, and there are no other clauses. -/
theorem oneColumn_means (values : List Int64) {merged : List Child} {query : Query}
    (written : ClausesWritten false true none none secondDistinct (newGen false) merged query) :
    MeansSame (oneColumn values) (oneColumnStore values) merged secondDistinct query := by
  cases written with
  | mk fromRan listRan filterRan groupRan havingRan orderRan limitRan =>
      cases fromRan
      exact ⟨List.filter_eq_self.mpr fun _ _ => rfl, nofun, nofun, nofun⟩

theorem exists_rewrite_keeps_emptiness_iff_sample :
    ∃ query after rows, Select.write false none none secondDistinct underExists = .ok (query, after) ∧
      (oneColumnStore [1, 2]).select query = some rows ∧ (rows ≠ [] ↔ (oneColumn [1, 2]).select secondDistinct ≠ []) := by
  obtain ⟨-, merged, written, iff⟩ :=
    @exists_rewrite_keeps_emptiness_iff false none none secondDistinct underExists _ _ rfl rfl rfl
  obtain ⟨rows, ran, same⟩ := iff Int64 (oneColumn [1, 2]) (oneColumnStore [1, 2]) (oneColumn_means _ written)
  exact ⟨_, _, rows, rfl, ran, same.mpr (by decide)⟩

/-- One value twice: the original SELECT has no second row, the one written
has. -/
theorem exists_rewrite_gains_row :
    ∃ query after merged, Select.write false none none secondDistinct underExists = .ok (query, after) ∧
      ClausesWritten false true none none secondDistinct (newGen false) merged query ∧
      MeansSame (oneColumn [1, 1]) (oneColumnStore [1, 1]) merged secondDistinct query ∧
      (oneColumnStore [1, 1]).select query = some [[some (.integer 1)]] ∧
      (oneColumn [1, 1]).select secondDistinct = [] := by
  have accepted : ∃ query after, Select.write false none none secondDistinct underExists = .ok (query, after) ∧
      (oneColumnStore [1, 1]).select query = some [[some (.integer 1)]] := ⟨_, _, rfl, by decide⟩
  obtain ⟨query, after, ran, one⟩ := accepted
  obtain ⟨merged, written⟩ := select_written ran
  exact ⟨query, after, merged, ran, written, oneColumn_means _ written, one, by decide⟩

end StoolapMariadb.SqlGen
