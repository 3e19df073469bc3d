import Mathlib.Logic.Basic

namespace Kleene

/-! Three-valued truth: `none` is the unknown value. A conjunction is false
as soon as one operand is, a disjunction true as soon as one is. -/

abbrev Truth := Option Bool

def not : Truth → Truth := Option.map Bool.not

def and : Truth → Truth → Truth
  | some false, _ => some false
  | some true, right => right
  | none, some false => some false
  | none, _ => none

def or : Truth → Truth → Truth
  | some true, _ => some true
  | some false, right => right
  | none, some true => some true
  | none, _ => none

def all : List Truth → Truth := List.foldr and (some true)

def any : List Truth → Truth := List.foldr or (some false)

variable {left right : Truth} {operands : List Truth}

@[simp] theorem and_eq_true : and left right = some true ↔ left = some true ∧ right = some true := by
  rcases left with _ | _ | _ <;> rcases right with _ | _ | _ <;> simp [and]

@[simp] theorem or_eq_true : or left right = some true ↔ left = some true ∨ right = some true := by
  rcases left with _ | _ | _ <;> rcases right with _ | _ | _ <;> simp [or]

theorem all_eq_true : all operands = some true ↔ ∀ operand ∈ operands, operand = some true := by
  induction operands with
  | nil => simp [all]
  | cons operand rest ih =>
      have unfolded : all (operand :: rest) = and operand (all rest) := rfl
      rw [unfolded, and_eq_true, ih, List.forall_mem_cons]

theorem any_eq_true : any operands = some true ↔ ∃ operand ∈ operands, operand = some true := by
  induction operands with
  | nil => simp [any]
  | cons operand rest ih =>
      have unfolded : any (operand :: rest) = or operand (any rest) := rfl
      rw [unfolded, or_eq_true, ih]
      simp only [List.mem_cons, exists_eq_or_imp]

end Kleene
