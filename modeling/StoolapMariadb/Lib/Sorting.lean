import Mathlib.Data.List.Sort
import Mathlib.Data.List.Perm.Basic

namespace Sorting

/-! Lists sorted by a comparator, and a second comparator the same list may or
may not be sorted by. -/

variable {α β : Type}

/-- No element before a smaller one. -/
def SortedBy (compare : α → α → Ordering) (list : List α) : Prop :=
  list.Pairwise fun left right => compare left right ≠ .gt

theorem sortedBy_insertionSort (compare : α → α → Ordering) [Std.TransCmp compare] (list : List α) :
    SortedBy compare (list.insertionSort fun left right => compare left right ≠ .gt) := by
  have trans : IsTrans α fun left right => compare left right ≠ .gt := ⟨fun first second third one two => by
    have lower : (compare first third).isLE :=
      Std.TransCmp.isLE_trans (Ordering.isLE_iff_ne_gt.mpr one) (Ordering.isLE_iff_ne_gt.mpr two)
    exact Ordering.isLE_iff_ne_gt.mp lower⟩
  have total : Std.Total fun left right => compare left right ≠ .gt := ⟨fun first second => by
    have swapped : compare second first = (compare first second).swap := Std.OrientedCmp.eq_swap
    rw [swapped]
    cases compare first second <;> simp⟩
  exact List.pairwise_insertionSort _ list

/-- A comparator on images sorts the preimages too. -/
theorem exists_map_of_perm {image : α → β} {list : List β} {source : List α}
    (perm : list.Perm (source.map image)) : ∃ ordered : List α, ordered.map image = list ∧ ordered.Perm source := by
  have composed : Relation.Comp (fun left right => left = List.map image right)
      (fun left right => List.Perm left right) list source := by
    rw [List.eq_map_comp_perm]
    exact perm
  obtain ⟨ordered, same, reordered⟩ := composed
  exact ⟨ordered, same.symm, reordered⟩

theorem sortedBy_map {compare : β → β → Ordering} {image : α → β} {list : List α} :
    SortedBy compare (list.map image) ↔
      SortedBy (fun left right => compare (image left) (image right)) list := by
  simp only [SortedBy, List.pairwise_map]

/-- A list one comparator sorts is sorted by a second, coarser on ties, exactly
when no pair the first puts in order the second puts the other way. -/
theorem sortedBy_iff_no_conflict {first second : α → α → Ordering} [Std.OrientedCmp first]
    {list : List α} (sorted : SortedBy first list)
    (ties : ∀ left ∈ list, ∀ right ∈ list, first left right = .eq → second left right = .eq) :
    SortedBy second list ↔
      ∀ left ∈ list, ∀ right ∈ list, first left right = .lt → second left right ≠ .gt := by
  constructor
  · intro other left leftIn right rightIn before
    obtain ⟨i, iBound, rfl⟩ := List.getElem_of_mem leftIn
    obtain ⟨j, jBound, rfl⟩ := List.getElem_of_mem rightIn
    rcases Nat.lt_trichotomy i j with less | same | more
    · exact List.pairwise_iff_getElem.mp other i j iBound jBound less
    · subst same
      have self : first list[i] list[i] = (first list[i] list[i]).swap := Std.OrientedCmp.eq_swap
      rw [before] at self
      contradiction
    · have notAfter := List.pairwise_iff_getElem.mp sorted j i jBound iBound more
      have swapped : first list[j] list[i] = (first list[i] list[j]).swap := Std.OrientedCmp.eq_swap
      rw [swapped, before] at notAfter
      exact absurd rfl notAfter
  · intro agree
    have inside : ∀ left ∈ list, ∀ right ∈ list, first left right ≠ .gt → second left right ≠ .gt := by
      intro left leftIn right rightIn notAfter
      cases order : first left right with
      | lt => exact agree left leftIn right rightIn order
      | eq => rw [ties left leftIn right rightIn order]; decide
      | gt => exact absurd order notAfter
    exact List.Pairwise.imp_of_mem (fun leftIn rightIn => inside _ leftIn _ rightIn) sorted

end Sorting
