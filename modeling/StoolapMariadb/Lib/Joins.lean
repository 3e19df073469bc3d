import Mathlib.Data.Multiset.Bind
import Mathlib.Data.Multiset.Filter
import Mathlib.Logic.Function.Basic

namespace Joins

/-! Left-deep joins, over any kind of combined row. -/

open Classical

/-- A table joined to the combinations before it: how a combination is extended
by each of its rows, and the ON. An outer join complements the combinations
that no row matches. -/
structure Step (κ : Type) where
  outer : Bool
  extend : κ → Multiset κ
  complement : κ → κ
  on : κ → Prop

variable {κ ι : Type}

noncomputable def Step.matches (step : Step κ) (combination : κ) : Multiset κ :=
  (step.extend combination).filter step.on

noncomputable def Step.join (step : Step κ) (rows : Multiset κ) : Multiset κ :=
  rows.bind fun combination =>
    if step.outer = true ∧ step.matches combination = 0 then {step.complement combination}
    else step.matches combination

/-- A filter on what was joined before commutes with the join. -/
theorem Step.join_filter (step : Step κ) {keep : κ → Prop}
    (extended : ∀ before, ∀ after ∈ step.extend before, keep after ↔ keep before)
    (complemented : ∀ before, keep (step.complement before) ↔ keep before) (rows : Multiset κ) :
    (step.join rows).filter keep = step.join (rows.filter keep) := by
  have one (before : κ) : Multiset.filter keep
      (if step.outer = true ∧ step.matches before = 0 then {step.complement before} else step.matches before) =
      if keep before then
        (if step.outer = true ∧ step.matches before = 0 then {step.complement before} else step.matches before)
      else 0 := by
    by_cases kept : keep before
    · rw [if_pos kept, Multiset.filter_eq_self]
      intro after member
      split at member
      · rw [Multiset.mem_singleton.mp member]
        exact (complemented before).mpr kept
      · exact (extended before after (Multiset.mem_of_mem_filter member)).mpr kept
    · rw [if_neg kept, Multiset.filter_eq_nil]
      intro after member
      split at member
      · rw [Multiset.mem_singleton.mp member]
        exact fun holds => kept ((complemented before).mp holds)
      · exact fun holds => kept ((extended before after (Multiset.mem_of_mem_filter member)).mp holds)
  rw [Step.join, Step.join, Multiset.filter_bind, Multiset.bind_filter]
  exact Multiset.bind_congr fun before _ => one before

/-- A join seen through a map of its combinations. -/
theorem Step.join_map {step : Step κ} {image : Step ι} {before after : κ → ι} {rows : Multiset κ}
    (same : image.outer = step.outer)
    (matched : ∀ combination ∈ rows,
      image.matches (before combination) = (step.matches combination).map after)
    (complemented : ∀ combination ∈ rows, step.outer = true →
      image.complement (before combination) = after (step.complement combination)) :
    image.join (rows.map before) = (step.join rows).map after := by
  rw [Step.join, Step.join, Multiset.bind_map, Multiset.map_bind]
  refine Multiset.bind_congr fun combination member => ?_
  rw [matched combination member, same]
  simp only [Multiset.map_eq_zero]
  by_cases lone : step.outer = true ∧ step.matches combination = 0
  · rw [if_pos lone, if_pos lone, complemented combination member lone.1, Multiset.map_singleton]
  · rw [if_neg lone, if_neg lone]

/-- What is joined extends a combination, or complements it. -/
theorem Step.mem_join {step : Step κ} {rows : Multiset κ} {after : κ} (member : after ∈ step.join rows) :
    ∃ before ∈ rows, after ∈ step.extend before ∨ after = step.complement before := by
  obtain ⟨before, found, joined⟩ := Multiset.mem_bind.mp member
  refine ⟨before, found, ?_⟩
  split at joined
  · exact .inr (Multiset.mem_singleton.mp joined)
  · exact .inl (Multiset.mem_of_mem_filter joined)

/-- Filtering a table before an inner join is filtering in the ON or after it. -/
theorem Step.join_filter_on {step : Step κ} (inner : step.outer = false) (keep : κ → Prop) (rows : Multiset κ) :
    ({ step with on := fun combination => step.on combination ∧ keep combination } : Step κ).join rows =
      (step.join rows).filter keep := by
  rw [Step.join, Step.join, Multiset.filter_bind]
  refine Multiset.bind_congr fun combination _ => ?_
  simp only [inner, Bool.false_eq_true, false_and, if_false, Step.matches, Multiset.filter_filter]
  exact Multiset.filter_congr fun _ _ => and_comm

section Tables

variable {κ ι ρ : Type} [DecidableEq κ] [DecidableEq ι]

/-- The join of a table's rows, to combinations that hold a row for each key. -/
def Step.table (null : ρ) (outer : Bool) (key : κ) (rows : Multiset ρ) (on : (κ → ρ) → Prop) : Step (κ → ρ) where
  outer
  extend combination := rows.map fun row => Function.update combination key row
  complement combination := Function.update combination key null
  on

/-- A table's join seen through a map of combinations, when it takes only some
of the rows and makes others of them. -/
theorem Step.table_join (null : ρ) (outer : Bool) (key : ι) (base : κ) (rows : Multiset ρ) (takes : ρ → Prop)
    (make : ρ → ρ) (onImage : (ι → ρ) → Prop) (on : (κ → ρ) → Prop) (before after : (κ → ρ) → ι → ρ)
    {combinations : Multiset (κ → ρ)}
    (row : ∀ c ∈ combinations, ∀ r, after (Function.update c base r) = Function.update (before c) key (make r))
    (same : ∀ c ∈ combinations, ∀ r, takes r ∧ onImage (after (Function.update c base r)) ↔ on (Function.update c base r))
    (complemented : ∀ c ∈ combinations, outer = true →
      Function.update (before c) key null = after (Function.update c base null)) :
    (Step.table null outer key ((rows.filter takes).map make) onImage).join (combinations.map before) =
      ((Step.table null outer base rows on).join combinations).map after := by
  refine Step.join_map rfl (fun c member => ?_) complemented
  have made : Function.update (before c) key ∘ make = after ∘ Function.update c base :=
    funext fun r => (row c member r).symm
  change Multiset.filter onImage (((rows.filter takes).map make).map (Function.update (before c) key)) =
    (Multiset.filter on (rows.map (Function.update c base))).map after
  rw [Multiset.map_map, made, Multiset.filter_map, Multiset.filter_filter, Multiset.filter_map, Multiset.map_map]
  exact congrArg (Multiset.map _) (Multiset.filter_congr fun r _ => and_comm.trans (same c member r))

/-- A table's join seen through a map of combinations that keeps its rows. -/
theorem Step.table_map (null : ρ) (outer : Bool) (key : ι) (base : κ) (rows : Multiset ρ) (onImage : (ι → ρ) → Prop)
    (on : (κ → ρ) → Prop) (before after : (κ → ρ) → ι → ρ) {combinations : Multiset (κ → ρ)}
    (row : ∀ c ∈ combinations, ∀ r, after (Function.update c base r) = Function.update (before c) key r)
    (same : ∀ c ∈ combinations, ∀ r, onImage (after (Function.update c base r)) ↔ on (Function.update c base r)) :
    (Step.table null outer key rows onImage).join (combinations.map before) =
      ((Step.table null outer base rows on).join combinations).map after := by
  have whole {takes : ρ → Prop} (all : ∀ r, takes r) : rows.filter takes = rows :=
    Multiset.filter_eq_self.mpr fun r _ => all r
  have joined := Step.table_join null outer key base rows (fun _ => True) (fun r => r) onImage on before after row
    (fun c member r => (iff_of_eq (true_and _)).trans (same c member r)) fun c member _ => (row c member null).symm
  rwa [Multiset.map_id', whole fun _ => trivial] at joined

end Tables

end Joins
