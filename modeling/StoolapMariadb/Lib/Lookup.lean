import Mathlib.Data.List.Basic

namespace Lookup

/-! Association lists: the first entry of a key counts. -/

variable {α β : Type} [BEq α] [LawfulBEq α] {entries : List (α × β)} {key : α} {value : β}

theorem mem_of_lookup (found : entries.lookup key = some value) : (key, value) ∈ entries := by
  obtain ⟨before, after, rfl, -⟩ := List.lookup_eq_some_iff.mp found
  simp

theorem lookup_none (missing : key ∉ entries.map Prod.fst) : entries.lookup key = none := by
  rw [List.lookup_eq_none_iff]
  intro entry member
  rw [bne_iff_ne]
  rintro rfl
  exact missing (List.mem_map_of_mem member)

/-- The one entry of a key. -/
theorem lookup_mem (distinct : (entries.map Prod.fst).Nodup) (member : (key, value) ∈ entries) :
    entries.lookup key = some value := by
  induction entries with
  | nil => cases member
  | cons head rest ih =>
      obtain ⟨other, first⟩ := head
      rw [List.map_cons, List.nodup_cons] at distinct
      rcases List.mem_cons.mp member with same | below
      · cases same
        exact List.lookup_cons_self
      · have differ : key ≠ other := by
          rintro rfl
          exact distinct.1 (List.mem_map.mpr ⟨_, below, rfl⟩)
        rw [List.lookup_cons, beq_eq_false_iff_ne.mpr differ]
        exact ih distinct.2 below

end Lookup
