import Mathlib.Data.List.Sort

namespace SelectRows

/-! The clauses of a SELECT without aggregates, over any kind of combined row:
what they keep, and how many rows a select list then has. -/

/-- The clauses besides the select list: the rows of FROM and WHERE, when two
of them are of one group, the groups HAVING takes, the order of the groups and
how many of the rows are returned. -/
structure Clauses (κ : Type) where
  rows : List κ
  sameGroup : Option (κ → κ → Bool)
  having : List κ → Bool
  before : List κ → List κ → Bool
  limit : Option Nat
  offset : Nat

variable {κ ω : Type}

def addToGroup (same : κ → κ → Bool) (row : κ) : List (List κ) → List (List κ)
  | [] => [[row]]
  | group :: groups => if group.any (same row) then (group ++ [row]) :: groups else group :: addToGroup same row groups

/-- Without a GROUP BY every row is by itself. -/
def Clauses.groups (clauses : Clauses κ) : List (List κ) :=
  match clauses.sameGroup with
  | none => clauses.rows.map fun row => [row]
  | some same => clauses.rows.foldl (fun groups row => addToGroup same row groups) []

/-- The groups the select list is evaluated for. -/
def Clauses.kept (clauses : Clauses κ) : List (List κ) :=
  (clauses.groups.filter clauses.having).insertionSort fun left right => clauses.before left right = true

/-- The first of the rows that are the same. -/
def distinct (same : ω → ω → Bool) (seen : List ω) : List ω → List ω
  | [] => []
  | row :: rows =>
      if seen.any (same row) then distinct same seen rows else row :: distinct same (row :: seen) rows

/-- The rows before LIMIT and OFFSET. -/
def Clauses.listed (clauses : Clauses κ) (dedup : Option (ω → ω → Bool)) (list : List κ → ω) : List ω :=
  match dedup with
  | none => clauses.kept.map list
  | some same => distinct same [] (clauses.kept.map list)

def Clauses.limited (clauses : Clauses κ) (rows : List ω) : List ω :=
  match clauses.limit with
  | none => rows.drop clauses.offset
  | some limit => (rows.drop clauses.offset).take limit

/-- What the SELECT returns. -/
def Clauses.select (clauses : Clauses κ) (dedup : Option (ω → ω → Bool)) (list : List κ → ω) : List ω :=
  clauses.limited (clauses.listed dedup list)

/-- The parts that decide how many rows a list without DISTINCT has. -/
structure Clauses.Agrees (clauses other : Clauses κ) : Prop where
  rows : clauses.rows = other.rows
  sameGroup : clauses.sameGroup = other.sameGroup
  having : clauses.having = other.having
  limit : clauses.limit = other.limit
  offset : clauses.offset = other.offset

theorem length_distinct_le (same : ω → ω → Bool) (seen rows : List ω) :
    (distinct same seen rows).length ≤ rows.length := by
  induction rows generalizing seen with
  | nil => exact Nat.le_refl 0
  | cons row rows ih =>
      rw [distinct]
      split
      · exact Nat.le_succ_of_le (ih seen)
      · exact Nat.succ_le_succ (ih (row :: seen))

theorem Clauses.select_ne_nil_iff (clauses : Clauses κ) (dedup : Option (ω → ω → Bool)) (list : List κ → ω) :
    clauses.select dedup list ≠ [] ↔
      clauses.limit ≠ some 0 ∧ clauses.offset < (clauses.listed dedup list).length := by
  rw [Clauses.select, Clauses.limited, ← List.length_pos_iff]
  cases clauses.limit with
  | none =>
      rw [List.length_drop, Nat.sub_pos_iff_lt]
      exact (and_iff_right (Option.some_ne_none 0).symm).symm
  | some limit =>
      rw [List.length_take, List.length_drop, Nat.lt_min, Nat.sub_pos_iff_lt]
      simp [Nat.pos_iff_ne_zero]

theorem Clauses.length_listed (clauses : Clauses κ) (list : List κ → ω) :
    (clauses.listed none list).length = clauses.kept.length := by
  rw [Clauses.listed, List.length_map]

theorem Clauses.length_listed_le (clauses : Clauses κ) (dedup : Option (ω → ω → Bool)) (list : List κ → ω) :
    (clauses.listed dedup list).length ≤ clauses.kept.length := by
  cases dedup with
  | none => exact Nat.le_of_eq (clauses.length_listed list)
  | some same => exact Nat.le_trans (length_distinct_le same [] _) (Nat.le_of_eq (List.length_map list))

theorem Clauses.Agrees.length_kept {clauses other : Clauses κ} (agrees : clauses.Agrees other) :
    clauses.kept.length = other.kept.length := by
  simp only [Clauses.kept, List.length_insertionSort, Clauses.groups, agrees.rows, agrees.sameGroup, agrees.having]

/-- Another list without DISTINCT has a row just when this one has, unless
there are rows past the offset but no distinct ones. -/
theorem Clauses.select_plain_iff {υ : Type} {clauses other : Clauses κ} (agrees : clauses.Agrees other)
    (dedup : Option (ω → ω → Bool)) (list : List κ → ω) (plain : List κ → υ) :
    (clauses.select none plain ≠ [] ↔ other.select dedup list ≠ []) ↔
      ¬ (other.limit ≠ some 0 ∧ (other.listed dedup list).length ≤ other.offset ∧
        other.offset < other.kept.length) := by
  rw [clauses.select_ne_nil_iff, other.select_ne_nil_iff, clauses.length_listed, agrees.length_kept, agrees.limit,
    agrees.offset]
  have fewer := other.length_listed_le dedup list
  constructor
  · rintro same ⟨some_, past, within⟩
    have both := same.mp ⟨some_, within⟩
    omega
  · intro never
    refine and_congr_right fun some_ => ⟨fun within => ?_, fun within => by omega⟩
    by_contra past
    exact never ⟨some_, by omega, within⟩

end SelectRows
