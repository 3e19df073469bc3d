import StoolapMariadb.Cursor
import StoolapMariadb.Lib.Sorting

namespace StoolapMariadb.Read

open Sorting

/-! What a full read delivers: a sorted read its list, a paged one the index's
listing, and either way the table's rows in order. -/

theorem directed_eq_iff {desc : Bool} {order : Ordering} : directed desc order = .eq ↔ order = .eq := by
  cases desc <;> cases order <;> decide

variable [Stoolap]

theorem compareValues_transCmp [lawful : LawfulStoolap] : Std.TransCmp compareValues := by
  have scalars := lawful.transCmp
  let order : Ord Scalar := ⟨Stoolap.compare⟩
  have total : Std.TransOrd Scalar := scalars
  have same : compareValues = fun left right : Value => Ord.compare left right := by
    funext left right
    cases left <;> cases right <;> rfl
  rw [same]
  infer_instance

/-- The order of two rows by columns is total. -/
theorem compareBy_transCmp [LawfulStoolap] (columns : List Nat) : Std.TransCmp (compareBy columns) := by
  have values := compareValues_transCmp
  induction columns with
  | nil =>
      exact { eq_swap := rfl, isLE_trans := fun _ _ => rfl }
  | cons column columns ih =>
      have first : Std.TransCmp fun left right : Row =>
          compareValues (left.value column) (right.value column) :=
        { eq_swap := Std.OrientedCmp.eq_swap, isLE_trans := Std.TransCmp.isLE_trans }
      exact inferInstanceAs (Std.TransCmp (compareLex
        (fun left right : Row => compareValues (left.value column) (right.value column))
        (compareBy columns)))

omit [Stoolap] in
theorem directed_transCmp {α : Type} {compare : α → α → Ordering} [Std.TransCmp compare] (desc : Bool) :
    Std.TransCmp fun left right => directed desc (compare left right) := by
  cases desc with
  | false => exact inferInstanceAs (Std.TransCmp compare)
  | true =>
      have swapped : (fun left right => directed true (compare left right)) =
          fun left right => compare right left := by
        funext left right
        have back : compare right left = (compare left right).swap := Std.OrientedCmp.eq_swap
        exact back.symm
      rw [swapped]
      exact { eq_swap := Std.OrientedCmp.eq_swap, isLE_trans := fun one two => Std.TransCmp.isLE_trans two one }

/-- The order of a read's rows. -/
def rowOrder (order : List Nat) (desc : Bool) (left right : IdRow) : Ordering :=
  directed desc (compareBy order left.2 right.2)

theorem rowOrder_transCmp [LawfulStoolap] (order : List Nat) (desc : Bool) :
    Std.TransCmp (rowOrder order desc) := by
  have rows := compareBy_transCmp order
  have ids : Std.TransCmp fun left right : IdRow => compareBy order left.2 right.2 :=
    { eq_swap := Std.OrientedCmp.eq_swap, isLE_trans := Std.TransCmp.isLE_trans }
  exact directed_transCmp desc

theorem sortedRows_sorted [LawfulStoolap] (rows : List IdRow) (order : List Nat) (desc : Bool) :
    SortedBy (rowOrder order desc) (sortedRows rows order desc) := by
  have total := rowOrder_transCmp order desc
  exact sortedBy_insertionSort (rowOrder order desc) rows

theorem sortedRows_perm (rows : List IdRow) (order : List Nat) (desc : Bool) :
    (sortedRows rows order desc).Perm rows :=
  List.perm_insertionSort _ rows

/-- A source that has loaded all the rows it will give. -/
def Source.Loaded (source : Source) (rows : List IdRow) : Prop :=
  match source with
  | .scan _ => False
  | .sorted held => held = rows
  | .paged pager => pager.done = true ∧ pager.rows = rows

theorem rndNext_loaded_nil {source : Source} (table : TableView) (loaded : source.Loaded []) :
    rndNext (some source) table = (.endOfFile, none) := by
  cases source with
  | scan rows => exact loaded.elim
  | sorted rows => rw [show rows = [] from loaded]; rfl
  | paged pager =>
      obtain ⟨done, rows⟩ := loaded
      simp only [rndNext, Source.nextRow, rows, Pager.fill, done, if_true]

theorem rndNext_loaded_cons {source : Source} {row : IdRow} {rest : List IdRow} (table : TableView)
    (loaded : source.Loaded (row :: rest)) :
    ∃ next : Source, next.Loaded rest ∧
      rndNext (some source) table = (.row row, if rest.isEmpty then none else some next) := by
  cases source with
  | scan rows => exact loaded.elim
  | sorted rows =>
      rw [show rows = row :: rest from loaded]
      exact ⟨.sorted rest, rfl, rfl⟩
  | paged pager =>
      obtain ⟨done, rows⟩ := loaded
      refine ⟨.paged (pager.give row rest), ⟨done, rfl⟩, ?_⟩
      have exhausted : (Source.paged (pager.give row rest)).exhausted = rest.isEmpty := by
        change (pager.done && rest.isEmpty) = rest.isEmpty
        rw [done, Bool.true_and]
      simp only [rndNext, Source.nextRow, rows, exhausted]

/-- Loaded rows are given in order, each once. -/
theorem readAll_loaded (table : Nat → TableView) {source : Source} {rows : List IdRow} {fuel : Nat}
    (loaded : source.Loaded rows) (enough : rows.length < fuel) :
    readAll table fuel (some source) = some rows := by
  induction rows generalizing table source fuel with
  | nil =>
      cases fuel with
      | zero => simp at enough
      | succ fuel => simp only [readAll, rndNext_loaded_nil _ loaded]
  | cons row rest ih =>
      cases fuel with
      | zero => simp at enough
      | succ fuel =>
          simp only [List.length_cons, Nat.add_lt_add_iff_right] at enough
          obtain ⟨next, nextLoaded, given⟩ := rndNext_loaded_cons (table 0) loaded
          simp only [readAll, given]
          cases rest with
          | nil =>
              cases fuel with
              | zero => simp at enough
              | succ fuel => rfl
          | cons other rest =>
              simp only [List.isEmpty_cons, Bool.false_eq_true, if_false, ih _ nextLoaded enough,
                Option.map_some]

/-- The index answers a page with a slice of one listing. -/
def AnswersPages (table : TableView) (column : Nat) (desc : Bool) (listing : List IdRow) : Prop :=
  ∀ limit offset, table.orderedByIndex column (!desc) (!desc) limit offset =
    .ok (some ((listing.drop offset).take limit))

/-- The index answers every page of a read with a slice of one listing. -/
def Answers (table : Nat → TableView) (column : Nat) (desc : Bool) (listing : List IdRow) : Prop :=
  ∀ call limit offset, (table call).orderedByIndex column (!desc) (!desc) limit offset =
    .ok (some ((listing.drop offset).take limit))

omit [Stoolap] in
theorem Answers.later {table : Nat → TableView} {column : Nat} {desc : Bool} {listing : List IdRow}
    (answers : Answers table column desc listing) :
    Answers (fun call => table (call + 1)) column desc listing :=
  fun call => answers (call + 1)

@[simp] theorem Pager.give_rows (pager : Pager) (row : IdRow) (rest : List IdRow) :
    (pager.give row rest).rows = rest := rfl

@[simp] theorem Pager.give_offset (pager : Pager) (row : IdRow) (rest : List IdRow) :
    (pager.give row rest).offset = pager.offset := rfl

@[simp] theorem Pager.give_done (pager : Pager) (row : IdRow) (rest : List IdRow) :
    (pager.give row rest).done = pager.done := rfl

@[simp] theorem Pager.give_page (pager : Pager) (row : IdRow) (rest : List IdRow) :
    (pager.give row rest).page = pager.page := rfl

@[simp] theorem Pager.give_column (pager : Pager) (row : IdRow) (rest : List IdRow) :
    (pager.give row rest).column = pager.column := rfl

@[simp] theorem Pager.give_desc (pager : Pager) (row : IdRow) (rest : List IdRow) :
    (pager.give row rest).desc = pager.desc := rfl

/-- A pager part way through a listing: what is left is its rows and the
listing from its offset on. -/
structure Pager.Within (pager : Pager) (column : Nat) (desc : Bool) (listing : List IdRow) : Prop where
  column : pager.column = column
  desc : pager.desc = desc
  page : 0 < pager.page
  done : pager.done = true → listing.drop pager.offset = []

def Pager.left (pager : Pager) (listing : List IdRow) : List IdRow :=
  pager.rows ++ listing.drop pager.offset

/-- A page moves rows of the listing into the pager and loses none. -/
theorem Pager.fill_within {pager : Pager} {column : Nat} {desc : Bool} {listing : List IdRow}
    {table : TableView} (answers : AnswersPages table column desc listing)
    (within : pager.Within column desc listing) (empty : pager.rows = []) :
    ∃ more filled, pager.fill table = .ok (more, filled) ∧ filled.Within column desc listing ∧
      filled.left listing = pager.left listing ∧ filled.last = pager.last ∧
      (filled.rows = [] → filled.left listing = []) := by
  by_cases done : pager.done = true
  · refine ⟨false, pager, by simp [Pager.fill, done], within, rfl, rfl, fun _ => ?_⟩
    rw [Pager.left, empty, within.done done, List.append_nil]
  · have answer := answers pager.page pager.offset
    rw [← within.column, ← within.desc] at answer
    simp only [Pager.fill, done, Bool.false_eq_true, if_false, answer]
    have split := List.take_append_drop pager.page (listing.drop pager.offset)
    have rest : listing.drop (pager.offset + ((listing.drop pager.offset).take pager.page).length) =
        (listing.drop pager.offset).drop pager.page := by
      rw [← List.drop_drop, List.length_take]
      rcases Nat.le_total pager.page (listing.drop pager.offset).length with less | more
      · rw [Nat.min_eq_left less]
      · rw [Nat.min_eq_right more, List.drop_length, List.drop_of_length_le more]
    refine ⟨_, _, rfl, ⟨within.column, within.desc, ?_, fun short => ?_⟩, ?_, rfl, fun none => ?_⟩
    · have := within.page
      simp only
      omega
    · simp only [decide_eq_true_eq, List.length_take] at short
      simp only [rest]
      exact List.drop_of_length_le (by omega)
    · simp only [Pager.left, rest, split, empty, List.nil_append]
    · have nothing : listing.drop pager.offset = [] := by
        rcases List.take_eq_nil_iff.mp none with zero | nothing
        · have := within.page
          omega
        · exact nothing
      simp [Pager.left, nothing]

theorem Pager.give_within {pager : Pager} {column : Nat} {desc : Bool} {listing : List IdRow}
    (within : pager.Within column desc listing) (row : IdRow) (rest : List IdRow) :
    (pager.give row rest).Within column desc listing :=
  ⟨within.column, within.desc, within.page, within.done⟩

/-- The next row of a paged read, or its end. -/
theorem nextRow_paged {pager : Pager} {column : Nat} {desc : Bool} {listing : List IdRow}
    {table : TableView} (answers : AnswersPages table column desc listing)
    (within : pager.Within column desc listing) :
    (pager.left listing = [] ∧ ∃ ended, (Source.paged pager).nextRow table = .ok (none, ended)) ∨
      ∃ row rest, ∃ filled : Pager, pager.left listing = row :: (filled.give row rest).left listing ∧
        filled.Within column desc listing ∧ filled.last = pager.last ∧
        (Source.paged pager).nextRow table = .ok (some row, .paged (filled.give row rest)) := by
  cases loaded : pager.rows with
  | cons row rest =>
      refine .inr ⟨row, rest, pager, ?_, within, rfl, ?_⟩
      · simp [Pager.left, loaded]
      · simp only [Source.nextRow, loaded]
  | nil =>
      obtain ⟨more, filled, fills, filledWithin, same, last, ended⟩ := Pager.fill_within answers within loaded
      cases page : filled.rows with
      | nil =>
          refine .inl ⟨same ▸ ended page, .paged filled, ?_⟩
          simp only [Source.nextRow, loaded, fills, page]
      | cons row rest =>
          refine .inr ⟨row, rest, filled, ?_, filledWithin, last, ?_⟩
          · rw [← same]
            simp [Pager.left, page]
          · simp only [Source.nextRow, loaded, fills, page]

/-- One call of a paged read: the next row of what is left, or the end. -/
theorem rndNext_paged {pager : Pager} {column : Nat} {desc : Bool} {listing : List IdRow}
    {table : Nat → TableView} (answers : Answers table column desc listing)
    (within : pager.Within column desc listing) :
    (pager.left listing = [] ∧ rndNext (some (.paged pager)) (table 0) = (.endOfFile, none)) ∨
      ∃ row next, pager.left listing = row :: Pager.left next listing ∧
        next.Within column desc listing ∧
        rndNext (some (.paged pager)) (table 0) =
          (.row row, if (Source.paged next).exhausted then none else some (.paged next)) := by
  rcases nextRow_paged (answers 0) within with ⟨nothing, ended, none⟩ | ⟨row, rest, filled, left, filledWithin, _, given⟩
  · exact .inl ⟨nothing, by simp only [rndNext, none]⟩
  · exact .inr ⟨row, filled.give row rest, left, Pager.give_within filledWithin row rest,
      by simp only [rndNext, given]⟩

/-- With every page answered a paged read gives the rest of the listing. -/
theorem readAll_paged {pager : Pager} {column : Nat} {desc : Bool} {listing : List IdRow}
    {table : Nat → TableView} {fuel : Nat} (answers : Answers table column desc listing)
    (within : pager.Within column desc listing) (enough : (pager.left listing).length < fuel) :
    readAll table fuel (some (.paged pager)) = some (pager.left listing) := by
  induction fuel generalizing pager table with
  | zero => simp at enough
  | succ fuel ih =>
      rcases rndNext_paged answers within with ⟨nothing, ended⟩ | ⟨row, next, left, nextWithin, given⟩
      · simp only [readAll, ended, nothing]
      · rw [left, List.length_cons, Nat.add_lt_add_iff_right] at enough
        simp only [readAll, given, left]
        cases exhausted : (Source.paged next).exhausted with
        | false =>
            simp only [Bool.false_eq_true, if_false, ih answers.later nextWithin enough, Option.map_some]
        | true =>
            -- The cursor ended the read with this row, and nothing is left.
            simp only [Source.exhausted, Bool.and_eq_true, List.isEmpty_iff] at exhausted
            have nothing : next.left listing = [] := by
              rw [Pager.left, exhausted.2, nextWithin.done exhausted.1, List.append_nil]
            cases fuel with
            | zero => simp at enough
            | succ fuel => simp [readAll, rndNext, nothing]

/-- A call that has to load rows goes on as if they had been there. -/
theorem rndNext_filled {pager filled : Pager} {more : Bool} {table : TableView}
    (empty : pager.rows = []) (fills : pager.fill table = .ok (more, filled))
    (done : filled.done = true) :
    rndNext (some (.paged pager)) table = rndNext (some (.paged filled)) table := by
  cases rows : filled.rows with
  | nil =>
      have loaded : (Source.paged filled).Loaded [] := ⟨done, rows⟩
      rw [rndNext_loaded_nil table loaded]
      simp only [rndNext, Source.nextRow, empty, fills, rows]
  | cons row rest => simp only [rndNext, Source.nextRow, empty, fills, rows]

/-- When the index cannot answer the first page, a sorted scan gives every
row. -/
theorem readAll_unanswered {table : TableView} {column : Nat} {desc : Bool} {rows : List IdRow}
    {pager : Pager} {fuel : Nat} (fresh : pager.rows = [] ∧ pager.done = false ∧ pager.last = none)
    (same : pager.column = column ∧ pager.desc = desc)
    (unanswered : ∀ limit offset, table.orderedByIndex column (!desc) (!desc) limit offset = .ok none)
    (scanned : table.scan none = .ok rows) (enough : rows.length < fuel) :
    readAll (fun _ => table) fuel (some (.paged pager)) = some (sortedRows rows [column] desc) := by
  obtain ⟨empty, notDone, noLast⟩ := fresh
  obtain ⟨rfl, rfl⟩ := same
  have every : (sortedRows rows [pager.column] pager.desc).filter pager.goesOn =
      sortedRows rows [pager.column] pager.desc :=
    List.filter_eq_self.mpr fun row _ => by simp [Pager.goesOn, noLast]
  have length := (sortedRows_perm rows [pager.column] pager.desc).length_eq
  obtain ⟨more, filled, fills, done, loaded⟩ : ∃ more filled, pager.fill table = .ok (more, filled) ∧
      filled.done = true ∧ filled.rows = sortedRows rows [pager.column] pager.desc := by
    simp only [Pager.fill, notDone, Bool.false_eq_true, if_false, unanswered, scanned, every]
    exact ⟨_, _, rfl, rfl, rfl⟩
  have direct : readAll (fun _ => table) fuel (some (.paged filled)) =
      some (sortedRows rows [pager.column] pager.desc) :=
    readAll_loaded (fun _ => table) ⟨done, loaded⟩ (by rw [length]; exact enough)
  cases fuel with
  | zero => simp at enough
  | succ fuel =>
      simp only [readAll, rndNext_filled empty fills done] at direct ⊢
      exact direct

/-- A table view of `rows`: a scan gives them, and the index of a column either
answers with slices of one listing of them, in order, or not at all. -/
structure Shows (table : TableView) (rows : List IdRow) : Prop where
  scan : table.scan none = .ok rows
  pages : ∀ column desc,
    (∃ listing, listing.Perm rows ∧ SortedBy (rowOrder [column] desc) listing ∧
      Answers (fun _ => table) column desc listing) ∨
    ∀ limit offset, table.orderedByIndex column (!desc) (!desc) limit offset = .ok none

/-- A table that holds `rows` and indexes every column, its listings the rows
sorted. -/
def TableView.ofRows (name : String) (schema : Schema) (rows : List IdRow) : TableView where
  name
  schema
  scan filter := .ok (rows.filter fun row => filter.all fun expr => expr.eval row.2 = some true)
  fetchRowsByIds ids := .ok (rows.filter fun row => ids.contains row.1)
  hasIndexOnColumn _ := true
  orderedByIndex column asc _ limit offset :=
    .ok (some (((sortedRows rows [column] (!asc)).drop offset).take limit))

theorem TableView.ofRows_shows [LawfulStoolap] (name : String) (schema : Schema) (rows : List IdRow) :
    Shows (TableView.ofRows name schema rows) rows where
  scan := by simp [TableView.ofRows]
  pages column desc := .inl ⟨sortedRows rows [column] desc, sortedRows_perm rows [column] desc,
    sortedRows_sorted rows [column] desc, fun _ _ _ => by simp [TableView.ofRows]⟩

/-- The columns of a read the table has. -/
structure ReadSpec.Names (spec : ReadSpec) (schema : Schema) : Prop where
  count : spec.tableColumns = schema.columns.length
  columns : ∀ column ∈ spec.columns, column < schema.columns.length
  order : ∀ column ∈ spec.order, column < schema.columns.length

theorem openRead_sorted {table : TableView} {rows : List IdRow} {spec : ReadSpec}
    (shows : Shows table rows) (names : spec.Names table.schema) (unbounded : spec.conds = [])
    (some' : spec.order ≠ []) :
    openRead table spec = .ok (.sorted (sortedRows rows spec.order spec.desc)) := by
  have counted : checkColumns table spec.tableColumns = .ok () := by
    simp [checkColumns, names.count]
  have inRange : (spec.columns ++ spec.order).find? (fun column =>
      decide (table.schema.columns.length ≤ column)) = none := by
    rw [List.find?_eq_none]
    intro column member
    rcases List.mem_append.mp member with read | sorted
    · simpa using names.columns column read
    · simpa using names.order column sorted
  have ordered' : spec.order.isEmpty = false := by simpa using some'
  simp only [openRead, counted, inRange, unbounded, lookupId, buildExpressions, filterOf, shows.scan,
    Except.map, ordered', Bool.false_eq_true, if_false]

/-- A read of a whole table in an order delivers its rows, each once, in that
order: from the column's index or sorted. -/
theorem ordered_delivers [LawfulStoolap] {table : TableView} {rows : List IdRow} {spec : ReadSpec}
    (shows : Shows table rows) (names : spec.Names table.schema) (unbounded : spec.conds = [])
    (some' : spec.order ≠ []) :
    ∃ source delivered, ordered table spec = .ok source ∧
      (∀ fuel, rows.length < fuel → readAll (fun _ => table) fuel (some source) = some delivered) ∧
      delivered.Perm rows ∧ SortedBy (rowOrder spec.order spec.desc) delivered := by
  have sortedCase : ordered table spec = openRead table spec → ∃ source delivered,
      ordered table spec = .ok source ∧
      (∀ fuel, rows.length < fuel → readAll (fun _ => table) fuel (some source) = some delivered) ∧
      delivered.Perm rows ∧ SortedBy (rowOrder spec.order spec.desc) delivered := by
    intro same
    refine ⟨.sorted (sortedRows rows spec.order spec.desc), _,
      same.trans (openRead_sorted shows names unbounded some'), fun fuel enough => ?_,
      sortedRows_perm rows spec.order spec.desc, sortedRows_sorted rows spec.order spec.desc⟩
    exact readAll_loaded _ rfl (by rwa [(sortedRows_perm rows spec.order spec.desc).length_eq])
  match order : spec.order with
  | [] => exact absurd order some'
  | _ :: _ :: _ => exact order ▸ sortedCase (by simp only [ordered, order])
  | [column] =>
      rw [order] at sortedCase
      have counted : checkColumns table spec.tableColumns = .ok () := by
        simp [checkColumns, names.count]
      have inRange : (spec.columns.any fun column => decide (spec.tableColumns ≤ column)) = false := by
        rw [List.any_eq_false]
        intro column member
        simpa [names.count] using names.columns column member
      by_cases fixed : spec.fixed = true
      · exact sortedCase (by simp [ordered, order, fixed])
      · by_cases indexed : table.schema.pkColumn = some column ∨ table.hasIndexOnColumn column = true
        · have paged : ordered table spec = .ok (.paged (Pager.start column spec.desc)) := by
            simp [ordered, order, fixed, unbounded, counted, inRange, indexed]
          rcases shows.pages column spec.desc with ⟨listing, perm, sorted, answers⟩ | unanswered
          · refine ⟨_, listing, paged, fun fuel enough => ?_, perm, sorted⟩
            exact readAll_paged answers ⟨rfl, rfl, Nat.zero_lt_succ _, by simp [Pager.start]⟩
              (by simpa [Pager.left, Pager.start, perm.length_eq] using enough)
          · refine ⟨_, sortedRows rows [column] spec.desc, paged, fun fuel enough => ?_,
              sortedRows_perm rows [column] spec.desc, sortedRows_sorted rows [column] spec.desc⟩
            exact readAll_unanswered ⟨rfl, rfl, rfl⟩ ⟨rfl, rfl⟩ unanswered shows.scan enough
        · exact sortedCase (by simp [ordered, order, fixed, unbounded, counted, inRange, indexed])

end StoolapMariadb.Read
