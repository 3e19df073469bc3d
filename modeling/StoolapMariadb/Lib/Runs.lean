import Mathlib.Logic.Basic

namespace Runs

/-! Runs of a deterministic step function over a list of operations. A guard
or a property is stated before each operation; an invariant that guarded
steps preserve then holds before every one of them and after the last. -/

variable {State Op : Type}

/-- The state a list of operations leads to. -/
def after (step : State → Op → State) (start : State) (ops : List Op) : State :=
  ops.foldl step start

/-- `property` holds of each operation in the state it runs in. -/
def Along (step : State → Op → State) (property : State → Op → Prop) :
    State → List Op → Prop
  | _, [] => True
  | state, op :: ops => property state op ∧ Along step property (step state op) ops

variable {step : State → Op → State} {start : State} {ops : List Op}

@[simp] theorem after_nil : after step start [] = start := rfl

@[simp] theorem after_cons (op : Op) (ops : List Op) :
    after step start (op :: ops) = after step (step start op) ops := rfl

theorem after_append (first second : List Op) :
    after step start (first ++ second) = after step (after step start first) second :=
  List.foldl_append

theorem Along.imp {left right : State → Op → Prop}
    (implies : ∀ state op, left state op → right state op)
    (along : Along step left start ops) : Along step right start ops := by
  induction ops generalizing start with
  | nil => trivial
  | cons op ops ih => exact ⟨implies _ _ along.1, ih along.2⟩

theorem along_of_forall {property : State → Op → Prop} (all : ∀ state op, property state op) :
    Along step property start ops := by
  induction ops generalizing start with
  | nil => trivial
  | cons op ops ih => exact ⟨all _ _, ih⟩

theorem along_and {left right : State → Op → Prop} :
    Along step (fun state op => left state op ∧ right state op) start ops ↔
      Along step left start ops ∧ Along step right start ops := by
  induction ops generalizing start with
  | nil => simp [Along]
  | cons op ops ih =>
      simp only [Along, ih]
      constructor
      · rintro ⟨⟨first, second⟩, third, fourth⟩
        exact ⟨⟨first, third⟩, second, fourth⟩
      · rintro ⟨⟨first, third⟩, second, fourth⟩
        exact ⟨⟨first, second⟩, third, fourth⟩

/-- The invariant rule: what guarded steps preserve holds before every
operation of a guarded run. -/
theorem along_of_preserved {invariant : State → Prop} {guard : State → Op → Prop}
    (preserved : ∀ state op, invariant state → guard state op → invariant (step state op))
    (initial : invariant start) (guarded : Along step guard start ops) :
    Along step (fun state _ => invariant state) start ops := by
  induction ops generalizing start with
  | nil => trivial
  | cons op ops ih =>
      exact ⟨initial, ih (preserved _ _ initial guarded.1) guarded.2⟩

theorem after_of_preserved {invariant : State → Prop} {guard : State → Op → Prop}
    (preserved : ∀ state op, invariant state → guard state op → invariant (step state op))
    (initial : invariant start) (guarded : Along step guard start ops) :
    invariant (after step start ops) := by
  induction ops generalizing start with
  | nil => exact initial
  | cons op ops ih => exact ih (preserved _ _ initial guarded.1) guarded.2

/-- A property each guarded step has from the invariant holds along the run. -/
theorem along_of_step {invariant : State → Prop} {guard property : State → Op → Prop}
    (preserved : ∀ state op, invariant state → guard state op → invariant (step state op))
    (establishes : ∀ state op, invariant state → guard state op → property state op)
    (initial : invariant start) (guarded : Along step guard start ops) :
    Along step property start ops :=
  (along_and.mpr ⟨along_of_preserved preserved initial guarded, guarded⟩).imp
    fun state op holds => establishes state op holds.1 holds.2

end Runs
