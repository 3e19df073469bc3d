import StoolapMariadb.SqlGen.Item

namespace StoolapMariadb.SqlGen

/-! What an item means, as far as moving it to another place asks: its value is
that of the columns it reads. -/

mutual

/-- The columns an item reads, its subqueries' own included: fields, and
references to the columns of derived tables. -/
def Item.reads : Item → List Item
  | .field attrs f => [.field attrs f]
  | .ref attrs type id target =>
      if type = .viewRef then [.ref attrs type id target] else optionReads target
  | .const _ _ | .null _ | .param _ | .other _ => []
  | .func _ _ _ args | .cond _ _ args | .sum _ _ args => itemsReads args
  | .window _ _ args partition order _ => itemsReads args ++ ordersReads partition ++ ordersReads order
  | .subselect _ _ left unit => optionReads left ++ unit.reads

def optionReads : Option Item → List Item
  | none => []
  | some it => it.reads

def itemsReads : List Item → List Item
  | [] => []
  | it :: items => it.reads ++ itemsReads items

def ordersReads : List Order → List Item
  | [] => []
  | .mk it _ :: keys => it.reads ++ ordersReads keys

def Select.reads : Select → List Item
  | .mk _ tables items filter groupList having orderList =>
      tablesReads tables ++ itemsReads items ++ optionReads filter ++ ordersReads groupList ++
        optionReads having ++ ordersReads orderList

def selectsReads : List Select → List Item
  | [] => []
  | select :: selects => select.reads ++ selectsReads selects

def SelectUnit.reads : SelectUnit → List Item
  | .mk selects _ _ _ order _ _ => selectsReads selects ++ legsReads order

def legsReads : List LegsOrder → List Item
  | [] => []
  | .mk it _ _ :: keys => it.reads ++ legsReads keys

def tablesReads : List TableList → List Item
  | [] => []
  | .mk kind on _ _ :: tables => kind.reads ++ optionReads on ++ tablesReads tables

def TableKind.reads : TableKind → List Item
  | .derived _ unit _ _ => unit.reads
  | .nested tables => tablesReads tables
  | .base _ _ | .unopened => []

end

/-- Where an item is evaluated: the values of fields, and of the columns of
derived tables that are read by name. -/
structure Scope where
  field : Field → Value
  column : ItemId → Option Value

/-- A meaning of items. A reference to a column that is not read by name is
what it points at. -/
structure Meaning where
  value : Scope → Item → Value
  field : ∀ scope attrs f, value scope (.field attrs (some f)) = scope.field f
  ref : ∀ scope attrs type id target, type ≠ .viewRef →
    value scope (.ref attrs type id (some target)) = value scope target
  viewRef : ∀ scope attrs id target,
    value scope (.ref attrs .viewRef id (some target)) = (scope.column id).getD (value scope target)
  determined : ∀ scope other it, (∀ leaf ∈ it.reads, value scope leaf = value other leaf) →
    value scope it = value other it

/-- A condition takes what it is TRUE for. -/
def Meaning.holds (meaning : Meaning) (scope : Scope) (it : Item) : Prop :=
  meaning.value scope it = some (.boolean true)

/-- An AND takes what each of its operands does. -/
def Meaning.takes (meaning : Meaning) (scope : Scope) (items : List Item) : Prop :=
  ∀ it ∈ items, meaning.holds scope it

/-- The columns an item may read: fields of the tables it sees, the derived
columns it is given, and others through what they point at. -/
inductive Visible (sees : TableId → Prop) (given : ItemId → Item → Prop) (free : ItemId → Prop) : Item → Prop where
  | field {attrs f} (seen : sees f.table) : Visible sees given free (.field attrs (some f))
  | given {attrs id target} (known : given id target) : Visible sees given free (.ref attrs .viewRef id (some target))
  | through {attrs id target} (unnamed : free id) (leaves : ∀ leaf ∈ target.reads, Visible sees given free leaf) :
      Visible sees given free (.ref attrs .viewRef id (some target))

variable {sees : TableId → Prop} {given : ItemId → Item → Prop} {free : ItemId → Prop}

theorem Visible.imp {more : ItemId → Prop} {leaf : Item} (visible : Visible sees given free leaf)
    (weaker : ∀ id, free id → more id) : Visible sees given more leaf := by
  induction visible with
  | field seen => exact .field seen
  | given known => exact .given known
  | through unnamed _ ih => exact .through (weaker _ unnamed) ih

/-- Scopes that agree on what an item sees give it one value. -/
theorem Meaning.value_congr (meaning : Meaning) {scope other : Scope} {it : Item}
    (visible : ∀ leaf ∈ it.reads, Visible sees given free leaf)
    (fields : ∀ f : Field, sees f.table → scope.field f = other.field f)
    (columns : ∀ attrs id target, given id target →
      meaning.value scope (.ref attrs .viewRef id (some target)) =
        meaning.value other (.ref attrs .viewRef id (some target)))
    (named : ∀ id, free id → scope.column id = other.column id) :
    meaning.value scope it = meaning.value other it := by
  have leaves {leaf : Item} (seen : Visible sees given free leaf) :
      meaning.value scope leaf = meaning.value other leaf := by
    induction seen with
    | field seen => rw [meaning.field, meaning.field, fields _ seen]
    | given known => exact columns _ _ _ known
    | through unnamed _ ih =>
        rw [meaning.viewRef, meaning.viewRef, named _ unnamed, meaning.determined scope other _ ih]
  exact meaning.determined scope other it fun leaf member => leaves (visible leaf member)

end StoolapMariadb.SqlGen
