import StoolapMariadb.CursorOrder

namespace StoolapMariadb.Read

open Sorting

/-! A paged read in a table that changes under it: the pages of the index, and
the sorted scan that goes on once the index cannot answer. -/

section

variable [Stoolap] {column : Nat} {desc : Bool} {listing given rows : List IdRow} {pager : Pager}

/-- What a pager notes of the rows given: the value of the last one, and the
ids of those that have it. -/
def LastOf (column : Nat) (given : List IdRow) : Option (Value × List Int64) → Prop
  | none => given = []
  | some (value, ids) =>
      (∃ row, given.getLast? = some row ∧ compareValues (row.2.value column) value = .eq) ∧
        ids = (given.filter fun row => compareValues (row.2.value column) value = .eq).map Prod.fst

/-- A pager part way through a listing, after the rows `given`. -/
structure Pager.Given (pager : Pager) (column : Nat) (desc : Bool) (listing given : List IdRow) : Prop where
  within : pager.Within column desc listing
  whole : given ++ pager.left listing = listing
  last : LastOf column given pager.last

theorem Pager.give_noted (pager : Pager) (row : IdRow) (rest : List IdRow) :
    (pager.give row rest).last =
      match pager.last with
      | some (last, ids) =>
          if compareValues (row.2.value pager.column) last = .eq then some (last, ids ++ [row.1])
          else some (row.2.value pager.column, [row.1])
      | none => some (row.2.value pager.column, [row.1]) := rfl

/-- Giving the next row of a sorted listing, a pager notes it with the rows it
ties with, or alone. -/
theorem LastOf.give [LawfulStoolap] {row : IdRow} (rest : List IdRow) (same : pager.column = column)
    (sorted : SortedBy (rowOrder [column] desc) (given ++ [row])) (last : LastOf column given pager.last) :
    LastOf column (given ++ [row]) (pager.give row rest).last := by
  have order := compareValues_transCmp
  subst same
  have ends : (given ++ [row]).getLast? = some row := List.getLast?_concat
  have self : compareValues (row.2.value pager.column) (row.2.value pager.column) = .eq :=
    Std.ReflCmp.compare_self
  rw [Pager.give_noted]
  cases noted : pager.last with
  | none =>
      rw [noted] at last
      rw [show given = [] from last]
      exact ⟨⟨row, rfl, self⟩, by simp [self]⟩
  | some entry =>
      obtain ⟨value, ids⟩ := entry
      rw [noted] at last
      obtain ⟨⟨final, isLast, equal⟩, spelled⟩ := last
      simp only
      split
      · rename_i tied
        exact ⟨⟨row, ends, tied⟩, by simp [spelled, tied]⟩
      · rename_i apart
        refine ⟨⟨row, ends, self⟩, ?_⟩
        -- An earlier row tied with this one would tie the last row with it.
        have none' : given.filter (fun other =>
            compareValues (other.2.value pager.column) (row.2.value pager.column) = .eq) = [] := by
          rw [List.filter_eq_nil_iff]
          intro other member tied
          rw [decide_eq_true_eq] at tied
          obtain ⟨before, split⟩ : ∃ before, given = before ++ [final] :=
            List.getLast?_eq_some_iff.mp isLast
          rw [split] at member
          have rows := rowOrder_transCmp [pager.column] desc
          have last_row : rowOrder [pager.column] desc final row ≠ .gt := by
            rw [SortedBy, List.pairwise_append] at sorted
            exact sorted.2.2 final (by rw [split]; simp) row List.mem_cons_self
          have other_last : rowOrder [pager.column] desc other final ≠ .gt := by
            rcases List.mem_append.mp member with earlier | here
            · rw [split, SortedBy, List.pairwise_append, List.pairwise_append] at sorted
              exact sorted.1.2.2 other earlier final List.mem_cons_self
            · rw [List.mem_singleton.mp here]
              rw [show rowOrder [pager.column] desc final final = .eq from Std.ReflCmp.compare_self]
              decide
          have tie : rowOrder [pager.column] desc other row = .eq := by
            simp only [rowOrder, compareBy, Ordering.then_eq_eq, and_true, directed_eq_iff]
            exact tied
          have sandwiched : rowOrder [pager.column] desc final row = .eq := by
            have back : rowOrder [pager.column] desc row final ≠ .gt := by
              rw [← Std.TransCmp.congr_left tie]
              exact other_last
            have swapped : rowOrder [pager.column] desc row final =
                (rowOrder [pager.column] desc final row).swap := Std.OrientedCmp.eq_swap
            rw [swapped] at back
            cases forward : rowOrder [pager.column] desc final row with
            | eq => rfl
            | gt => exact absurd forward last_row
            | lt => rw [forward] at back; exact absurd rfl back
          simp only [rowOrder, compareBy, Ordering.then_eq_eq, and_true, directed_eq_iff] at sandwiched
          apply apart
          have flipped : compareValues (row.2.value pager.column) (final.2.value pager.column) = .eq := by
            have swapped : compareValues (row.2.value pager.column) (final.2.value pager.column) =
                (compareValues (final.2.value pager.column) (row.2.value pager.column)).swap :=
              Std.OrientedCmp.eq_swap
            rw [swapped, sandwiched]
            rfl
          exact (Std.TransCmp.congr_left flipped).trans equal
        rw [List.filter_append, none']
        simp [self]

theorem Pager.Given.give [LawfulStoolap] {filled : Pager} {row : IdRow} {rest : List IdRow}
    (sorted : SortedBy (rowOrder [column] desc) listing) (state : pager.Given column desc listing given)
    (within : filled.Within column desc listing) (last : filled.last = pager.last)
    (left : pager.left listing = row :: (filled.give row rest).left listing) :
    (filled.give row rest).Given column desc listing (given ++ [row]) := by
  have whole : given ++ [row] ++ (filled.give row rest).left listing = listing := by
    rw [List.append_assoc, List.singleton_append, ← left, state.whole]
  have prefixed : SortedBy (rowOrder [column] desc) (given ++ [row]) :=
    List.Pairwise.sublist (List.sublist_append_left _ _) (whole ▸ sorted)
  exact ⟨Pager.give_within within row rest, whole,
    LastOf.give rest within.column prefixed (last ▸ state.last)⟩

/-- One call of `next_row` while the index answers. -/
theorem Pager.Given.next [LawfulStoolap] {table : TableView}
    (sorted : SortedBy (rowOrder [column] desc) listing) (answers : AnswersPages table column desc listing)
    (state : pager.Given column desc listing given) :
    (given = listing ∧ ∃ ended, (Source.paged pager).nextRow table = .ok (none, ended)) ∨
      ∃ row, ∃ next : Pager, next.Given column desc listing (given ++ [row]) ∧
        (Source.paged pager).nextRow table = .ok (some row, .paged next) := by
  rcases nextRow_paged answers state.within with
    ⟨nothing, ended, none⟩ | ⟨row, rest, filled, left, within, last, gives⟩
  · refine .inl ⟨?_, ended, none⟩
    have whole := state.whole
    rwa [nothing, List.append_nil] at whole
  · exact .inr ⟨row, filled.give row rest, state.give sorted within last left, gives⟩

end

/-- A table that holds `rows` and whose index cannot answer. -/
def TableView.unindexed (schema : Schema) (rows : List IdRow) : TableView where
  name := "t"
  schema
  scan _ := .ok rows
  fetchRowsByIds ids := .ok (rows.filter fun row => ids.contains row.1)
  hasIndexOnColumn _ := true
  orderedByIndex _ _ _ _ _ := .ok none

def sampleListing : List IdRow :=
  (List.range 16).map fun index => (Int64.ofNat (index + 1), [some (.integer (Int64.ofNat (index + 1)))])

/-- The rows after the transaction gave the first of them the value of the
last. -/
def changedRows : List IdRow := (1, [some (.integer 16)]) :: sampleListing.tail

/-- One page of sixteen rows is answered, and then no other. -/
def sampleTable (call : Nat) : TableView :=
  let schema : Schema := { columns := [⟨"v", .integer⟩], pkColumn := none }
  if call < 16 then { TableView.unindexed schema sampleListing with
    orderedByIndex := fun _ _ _ limit offset => .ok (some ((sampleListing.drop offset).take limit)) }
  else .unindexed schema changedRows

end StoolapMariadb.Read
