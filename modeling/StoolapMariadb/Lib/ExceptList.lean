import Mathlib.Data.List.Forall2

namespace ExceptList

/-! `mapM` in `Except`, as a relation between the two lists. -/

variable {α β ε : Type} {read : α → Except ε β} {sources : List α} {values : List β}

theorem bind_ok {x : Except ε α} {f : α → Except ε β} {b : β} :
    (x >>= f) = .ok b ↔ ∃ a, x = .ok a ∧ f a = .ok b := by
  cases x with
  | error why => simp [bind, Except.bind]
  | ok a => simp [bind, Except.bind]

theorem map_ok {x : Except ε α} {f : α → β} {b : β} : x.map f = .ok b ↔ ∃ a, x = .ok a ∧ f a = b := by
  cases x with
  | error why => simp [Except.map]
  | ok a => simp [Except.map]

theorem mapError_ok {other : Type} {x : Except ε α} {f : ε → other} {a : α} : x.mapError f = .ok a ↔ x = .ok a := by
  cases x with
  | error why => simp [Except.mapError]
  | ok a => simp [Except.mapError]

theorem pure_ok {a b : α} : (pure a : Except ε α) = .ok b ↔ a = b := by
  simp [pure, Except.pure]

theorem mapM_ok : sources.mapM read = .ok values ↔
    List.Forall₂ (fun source value => read source = .ok value) sources values := by
  induction sources generalizing values with
  | nil => cases values <;> simp [pure, Except.pure]
  | cons source rest ih =>
      simp only [List.mapM_cons, bind_ok, pure_ok, ih, List.forall₂_cons_left_iff]
      constructor
      · rintro ⟨value, first, others, related, rfl⟩
        exact ⟨value, others, first, related, rfl⟩
      · rintro ⟨value, others, first, related, rfl⟩
        exact ⟨value, first, others, related, rfl⟩

theorem mapM_length (succeeded : sources.mapM read = .ok values) : values.length = sources.length :=
  (mapM_ok.mp succeeded).length_eq.symm

theorem mapM_mem {value : β} (succeeded : sources.mapM read = .ok values) (member : value ∈ values) :
    ∃ source ∈ sources, read source = .ok value := by
  have related := mapM_ok.mp succeeded
  clear succeeded
  induction related with
  | nil => cases member
  | @cons source first _ _ here _ ih =>
      rcases List.mem_cons.mp member with rfl | later
      · exact ⟨source, List.mem_cons_self, here⟩
      · obtain ⟨other, isSource, made⟩ := ih later
        exact ⟨other, List.mem_cons_of_mem _ isSource, made⟩

theorem mapM_source {source : α} (succeeded : sources.mapM read = .ok values) (member : source ∈ sources) :
    ∃ value ∈ values, read source = .ok value := by
  have related := mapM_ok.mp succeeded
  clear succeeded
  induction related with
  | nil => cases member
  | @cons first value _ _ here _ ih =>
      rcases List.mem_cons.mp member with rfl | later
      · exact ⟨value, List.mem_cons_self, here⟩
      · obtain ⟨other, isValue, made⟩ := ih later
        exact ⟨other, List.mem_cons_of_mem _ isValue, made⟩

/-- A traversal fails as one of its elements does, when there is one way to
fail. -/
theorem mapM_error_iff {why : ε} (only : ∀ source ∈ sources, ∀ other, read source = .error other → other = why) :
    sources.mapM read = .error why ↔ ∃ source ∈ sources, read source = .error why := by
  induction sources with
  | nil => simp [pure, Except.pure]
  | cons source rest ih =>
      obtain ⟨first, others⟩ := List.forall_mem_cons.mp only
      cases ran : read source with
      | error other =>
          obtain rfl := first other ran
          simp [List.mapM_cons, ran, bind, Except.bind]
      | ok value =>
          have tail := ih others
          cases restRan : rest.mapM read with
          | error other =>
              rw [restRan] at tail
              simp [List.mapM_cons, ran, restRan, bind, Except.bind, ← tail]
          | ok values =>
              rw [restRan] at tail
              simp [List.mapM_cons, ran, restRan, bind, Except.bind, pure, Except.pure, ← tail]

end ExceptList
