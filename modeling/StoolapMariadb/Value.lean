import Mathlib.Data.List.Sort

namespace StoolapMariadb

/-! Stoolap's values as the plugin writes them. -/

/-- A value that is not NULL. A float is its bits, a text its UTF-8 bytes. -/
inductive Scalar where
  | integer (value : Int64)
  | float (bits : UInt64)
  | text (bytes : List UInt8)
  | boolean (value : Bool)
deriving DecidableEq

/-- `none` is NULL. -/
abbrev Value := Option Scalar

/-- A column's type in stoolap's schema. -/
inductive DataType where
  | integer
  | float
  | text
  | boolean
deriving DecidableEq

/-- A stored row, one value for each column. -/
abbrev Row := List Value

/-- `Row::get`, a column the row lacks counting as NULL. -/
def Row.value (row : Row) (column : Nat) : Value := (row[column]?).join

structure Column where
  name : String
  dataType : DataType

/-- A table's schema. `pkColumn` is the INTEGER primary key, whose value is
the row id. -/
structure Schema where
  columns : List Column
  pkColumn : Option Nat

/-- The parts of stoolap that are linked in and not written here: its order
of values, the equality a set of values goes by, the cast of a value into a
column's type, and the widening of a FLOAT. -/
class Stoolap where
  compare : Scalar → Scalar → Ordering
  equal : Scalar → Scalar → Bool
  coerce : DataType → Value → Value
  widen : UInt32 → UInt64

/-- Texts compare byte by byte, a proper prefix first. -/
def compareBytes (left right : List UInt8) : Ordering := List.compareLex compare left right

theorem compareBytes_eq_eq {left right : List UInt8} : compareBytes left right = .eq ↔ left = right :=
  (Std.compare_eq_iff_eq : compare left right = .eq ↔ left = right)

/-- Stoolap's order is total, and on one type the plain one; equal are the
values it finds equal. -/
class LawfulStoolap [Stoolap] : Prop where
  transCmp : Std.TransCmp Stoolap.compare
  equal_iff (left right : Scalar) : Stoolap.equal left right = true ↔ Stoolap.compare left right = .eq
  compare_integer (left right : Int64) :
    Stoolap.compare (.integer left) (.integer right) = compare left right
  compare_text (left right : List UInt8) :
    Stoolap.compare (.text left) (.text right) = compareBytes left right

/-- A value as numbers: its type, then what it holds. -/
def Scalar.key : Scalar → List Int
  | .boolean value => [0, if value then 1 else 0]
  | .integer value => [1, value.toInt]
  | .float bits => [2, bits.toNat]
  | .text bytes => 3 :: bytes.map fun byte => (byte.toNat : Int)

/-- An order of values to compute with: integers by value, texts by bytes, one
type before another. Values keep their type. -/
@[reducible] def Stoolap.reference : Stoolap where
  compare := compareOn Scalar.key
  equal left right := compareOn Scalar.key left right == .eq
  coerce _ value := value
  widen bits := bits.toUInt64

theorem compareLex_map_toNat (left right : List UInt8) :
    List.compareLex compare (left.map fun byte => (byte.toNat : Int))
      (right.map fun byte => (byte.toNat : Int)) = compareBytes left right := by
  induction left generalizing right with
  | nil => cases right <;> rfl
  | cons byte rest ih =>
      cases right with
      | nil => rfl
      | cons other others =>
          have bytes : compare (byte.toNat : Int) other.toNat = compare byte other := by
            rcases h : compare byte other with _ | _ | _
            · rw [Int.compare_eq_lt]
              have less := Std.compare_eq_lt.mp h
              exact_mod_cast UInt8.lt_iff_toNat_lt.mp less
            · rw [Std.compare_eq_iff_eq] at h
              rw [h, Int.compare_eq_eq]
            · rw [Int.compare_eq_gt]
              have more := Std.compare_eq_gt.mp h
              exact_mod_cast UInt8.lt_iff_toNat_lt.mp more
          simp only [List.map_cons, compareBytes, List.compareLex_cons_cons, bytes, ih]

theorem compare_toInt (left right : Int64) : compare left.toInt right.toInt = compare left right := by
  rcases h : compare left right with _ | _ | _
  · rw [Int.compare_eq_lt]
    exact Int64.lt_iff_toInt_lt.mp (Std.compare_eq_lt.mp h)
  · rw [Std.compare_eq_iff_eq] at h
    rw [h, Int.compare_eq_eq]
  · rw [Int.compare_eq_gt]
    exact Int64.lt_iff_toInt_lt.mp (Std.compare_eq_gt.mp h)

/-- The order to compute with keeps the laws. -/
theorem Stoolap.reference_lawful : @LawfulStoolap Stoolap.reference :=
  let instance_ := Stoolap.reference
  { transCmp := inferInstanceAs (Std.TransCmp (compareOn Scalar.key))
    equal_iff := fun _ _ => beq_iff_eq
    compare_integer := fun left right => by
      change List.compareLex Ord.compare [1, left.toInt] [1, right.toInt] = Ord.compare left right
      simp only [List.compareLex_cons_cons, List.compareLex_nil_nil, compare_toInt]
      cases Ord.compare left right <;> rfl
    compare_text := fun left right => compareLex_map_toNat left right }

end StoolapMariadb
