import StoolapMariadb.Key
import Mathlib.Data.List.Forall2
import StoolapMariadb.Lib.ExceptList

namespace StoolapMariadb.Key

open Record Read

/-! MariaDB's lexicographic key order, and that a bound's conditions are that
order. -/

/-- A stored value against a bound's, NULL before every value and `beyond`
after. -/
def partOrder [Stoolap] (key : KeyValue) (stored : Value) : Ordering :=
  match key, stored with
  | .beyond, _ => .lt
  | .value (some bound), some stored => Stoolap.compare stored bound
  | .value (some _), none => .lt
  | .value none, none | .null, none => .eq
  | .value none, some _ | .null, some _ => .gt

/-- A row's key values against a bound's: the order of the first part that
differs. -/
def lexOrder [Stoolap] : List KeyValue → List Value → Ordering
  | key :: keys, stored :: rest => (partOrder key stored).then (lexOrder keys rest)
  | _, _ => .eq

/-- The first part that differs is NULL against a value: an upper bound leaves
the row out. -/
def leftOut [Stoolap] : List KeyValue → List Value → Bool
  | key :: keys, stored :: rest =>
      match partOrder key stored with
      | .eq => leftOut keys rest
      | .lt | .gt =>
          match key, stored with
          | .value _, none => true
          | _, _ => false
  | _, _ => false

/-- The rows within a bound, as MariaDB's key order has them. -/
def Meets [Stoolap] (op : KeyOp) (keys : List KeyValue) (row : List Value) : Prop :=
  match op with
  | .eq => lexOrder keys row = .eq
  | .gt => lexOrder keys row = .gt
  | .ge => lexOrder keys row ≠ .lt
  | .lt => lexOrder keys row = .lt ∧ leftOut keys row = false
  | .le => lexOrder keys row ≠ .gt ∧ leftOut keys row = false

/-- A row's values of the key's parts. -/
def rowKey (parts : List StoolapField) (row : Row) : List Value :=
  parts.map fun f => row.value f.columnIndex

instance [Stoolap] (op : KeyOp) (keys : List KeyValue) (row : List Value) :
    Decidable (Meets op keys row) :=
  match op with
  | .eq | .gt => inferInstanceAs (Decidable (_ = _))
  | .ge => inferInstanceAs (Decidable (_ ≠ _))
  | .lt => inferInstanceAs (Decidable (_ = _ ∧ _ = _))
  | .le => inferInstanceAs (Decidable (_ ≠ _ ∧ _ = _))

variable [Stoolap] {schema : Schema} {tableName : String}

/-- What a comparison says of a row. -/
def Pred.Means (schema : Schema) (tableName : String) (pred : Pred) (property : Row → Prop) : Prop :=
  match pred with
  | .constTrue => ∀ row, property row
  | .constFalse => ∀ row, ¬ property row
  | .nodes conds => ∃ expr, Standalone schema tableName conds [expr] ∧
      ∀ row, expr.eval row = some true ↔ property row

/-- A leg's conditions join to what its comparisons say together. -/
def LegMeans (schema : Schema) (tableName : String) (preds : List Pred) (property : Row → Prop) : Prop :=
  match all preds with
  | none => ∀ row, ¬ property row
  | some (nodes, count) => ∃ exprs : List Expression, exprs.length = count ∧
      Standalone schema tableName nodes exprs ∧ ∀ row, Holds row exprs ↔ property row

theorem LegMeans.nil : LegMeans schema tableName [] fun _ => True :=
  ⟨[], rfl, Standalone.nil, by simp⟩

theorem LegMeans.cons {pred : Pred} {preds : List Pred} {head tail : Row → Prop}
    (first : pred.Means schema tableName head) (rest : LegMeans schema tableName preds tail) :
    LegMeans schema tableName (pred :: preds) fun row => head row ∧ tail row := by
  cases pred with
  | constTrue =>
      simp only [LegMeans, all]
      have same (row : Row) : (head row ∧ tail row) ↔ tail row := and_iff_right (first row)
      simpa only [LegMeans, same] using rest
  | constFalse =>
      simp only [LegMeans, all]
      exact fun row both => first row both.1
  | nodes conds =>
      obtain ⟨expr, standalone, meaning⟩ := first
      cases joined : all preds with
      | none =>
          simp only [LegMeans, joined] at rest
          simp only [LegMeans, all, joined, Option.map_none]
          exact fun row both => rest row both.2
      | some leg =>
          simp only [LegMeans, joined] at rest
          obtain ⟨exprs, length, standaloneRest, meaningRest⟩ := rest
          simp only [LegMeans, all, joined, Option.map_some]
          refine ⟨expr :: exprs, by simp [length], standalone.append standaloneRest, fun row => ?_⟩
          rw [← List.singleton_append, holds_append, holds_singleton, meaning, meaningRest]

/-- A leg with a condition is written as one expression. -/
theorem LegMeans.expression {preds : List Pred} {property : Row → Prop} {nodes : List Node}
    {count : Nat} (means : LegMeans schema tableName preds property)
    (joined : all preds = some (nodes, count)) (some' : count ≠ 0) :
    ∃ expr, Standalone schema tableName (legNodes (nodes, count)) [expr] ∧
      ∀ row, expr.eval row = some true ↔ property row := by
  simp only [LegMeans, joined] at means
  obtain ⟨exprs, length, standalone, meaning⟩ := means
  match exprs with
  | [] => exact absurd length.symm some'
  | [expr] =>
      have single : ¬ count > 1 := by simp at length; omega
      simp only [legNodes, if_neg single]
      exact ⟨expr, standalone, fun row => by rw [← holds_singleton, meaning]⟩
  | first :: second :: rest =>
      have several : count > 1 := by simp at length; omega
      rw [legNodes, if_pos several, ← length]
      exact ⟨_, standalone.join_and (by simp), fun row => by rw [Expression.eval_and, meaning]⟩

/-- The legs a bound collects are an OR over all of them. -/
theorem collectLegs_means {legs : List (List Pred)} {properties : List (Row → Prop)}
    (means : List.Forall₂ (LegMeans schema tableName) legs properties) :
    match collectLegs legs with
    | none => ∀ row, ∃ property ∈ properties, property row
    | some kept => ∃ exprs : List Expression, exprs.length = kept.length ∧
        Standalone schema tableName (kept.flatMap legNodes) exprs ∧
        ∀ row, (∃ expr ∈ exprs, expr.eval row = some true) ↔ ∃ property ∈ properties, property row := by
  induction means with
  | nil => exact ⟨[], rfl, Standalone.nil, by simp⟩
  | @cons preds property legs properties first rest ih =>
      cases joined : all preds with
      | none =>
          have never : ∀ row, ¬ property row := by simpa only [LegMeans, joined] using first
          simp only [collectLegs, joined, List.mem_cons, exists_eq_or_imp, never, false_or]
          exact ih
      | some leg =>
          obtain ⟨nodes, count⟩ := leg
          match count with
          | 0 =>
              simp only [LegMeans, joined] at first
              obtain ⟨exprs, length, _, meaning⟩ := first
              have empty : exprs = [] := List.length_eq_zero_iff.mp length
              subst empty
              simp only [collectLegs, joined]
              exact fun row => ⟨property, by simp, (meaning row).mp holds_nil⟩
          | count + 1 =>
              obtain ⟨expr, standalone, meaning⟩ := first.expression joined (by simp)
              simp only [collectLegs, joined]
              cases collected : collectLegs legs with
              | none =>
                  simp only [collected] at ih
                  simp only [Option.map_none]
                  intro row
                  obtain ⟨property, member, holds⟩ := ih row
                  exact ⟨property, by simp [member], holds⟩
              | some kept =>
                  simp only [collected] at ih
                  obtain ⟨exprs, length, standaloneRest, meaningRest⟩ := ih
                  simp only [Option.map_some]
                  refine ⟨expr :: exprs, by simp [length], ?_, fun row => ?_⟩
                  · rw [List.flatMap_cons, ← List.singleton_append]
                    exact standalone.append standaloneRest
                  · simp only [List.mem_cons, exists_eq_or_imp, meaning, meaningRest]

/-- All of a composite bound's legs. -/
def legsOf (op strict : KeyOp) (keys : List (StoolapField × KeyValue)) : List (List Pred) :=
  (List.range keys.length).map (legPreds op strict keys)

def KeyOp.strict (op : KeyOp) : KeyOp := if op.isLower then .gt else .lt

def KeyOp.lead (op : KeyOp) : KeyOp := if op.isLower then .ge else .le

omit [Stoolap] in
omit [Stoolap] in
/-- The legs past the first are the legs of the parts after it, the first part
equal. -/
theorem legsOf_cons (op strict : KeyOp) (key next : StoolapField × KeyValue)
    (rest : List (StoolapField × KeyValue)) :
    legsOf op strict (key :: next :: rest) = [compare key.1 strict key.2] ::
      (legsOf op strict (next :: rest)).map (compare key.1 .eq key.2 :: ·) := by
  have later (leg : Nat) : legPreds op strict (key :: next :: rest) (leg + 1) =
      compare key.1 .eq key.2 :: legPreds op strict (next :: rest) leg := by
    simp only [legPreds, List.take_succ_cons, List.mapIdx_cons, Nat.zero_lt_succ, if_true,
      Nat.add_lt_add_iff_right, List.length_cons, Nat.add_sub_cancel]
  have first : legPreds op strict (key :: next :: rest) 0 = [compare key.1 strict key.2] := by
    simp [legPreds]
  rw [legsOf, List.length_cons, List.range_succ_eq_map, List.map_cons, first, List.map_map, legsOf,
    List.map_map]
  congr 1
  exact List.map_congr_left fun leg _ => later leg

section Range

/-! Whatever a part's comparison says of a row, the legs say it
lexicographically. -/

variable {takes : KeyOp → StoolapField × KeyValue → Row → Prop}

/-- Strictly past on the first part, or equal there and within the bound on
the rest. -/
def LexTakes (takes : KeyOp → StoolapField × KeyValue → Row → Prop) (op : KeyOp) :
    List (StoolapField × KeyValue) → Row → Prop
  | [], _ => False
  | [key], row => takes op key row
  | key :: next :: rest, row =>
      takes op.strict key row ∨ (takes .eq key row ∧ LexTakes takes op (next :: rest) row)

theorem legsOf_mean (op : KeyOp) {keys : List (StoolapField × KeyValue)}
    (means : ∀ op, ∀ key ∈ keys, (compare key.1 op key.2).Means schema tableName (takes op key)) :
    ∃ properties, List.Forall₂ (LegMeans schema tableName) (legsOf op op.strict keys) properties ∧
      ∀ row, (∃ property ∈ properties, property row) ↔ LexTakes takes op keys row := by
  induction keys with
  | nil => exact ⟨[], .nil, by simp [LexTakes]⟩
  | cons key rest ih =>
      cases rest with
      | nil =>
          refine ⟨[fun row => takes op key row ∧ True], .cons ?_ .nil, by simp [LexTakes]⟩
          exact (LegMeans.nil).cons (means op key (by simp))
      | cons next rest =>
          obtain ⟨properties, legs, meaning⟩ := ih fun op key member => means op key (by simp [member])
          refine ⟨(fun row => takes op.strict key row ∧ True) ::
            properties.map fun property row => takes .eq key row ∧ property row, ?_, fun row => ?_⟩
          · rw [legsOf_cons]
            refine .cons ((LegMeans.nil).cons (means op.strict key (by simp))) ?_
            rw [List.forall₂_map_left_iff, List.forall₂_map_right_iff]
            exact legs.imp fun _ _ leg => leg.cons (means .eq key (by simp))
          · simp only [List.mem_cons, List.mem_map, exists_eq_or_imp, and_true,
              exists_exists_and_eq_and, LexTakes, ← meaning row]
            simp only [and_left_comm, exists_and_left]

/-- The legs kept are written as one condition, an OR when there are
several. -/
theorem legs_expression {kept : List (List Node × Nat)} {exprs : List Expression}
    (length : exprs.length = kept.length) (some' : kept ≠ [])
    (standalone : Standalone schema tableName (kept.flatMap legNodes) exprs) :
    ∃ expr, Standalone schema tableName
        (if kept.length > 1 then kept.flatMap legNodes ++ [.or kept.length] else kept.flatMap legNodes)
        [expr] ∧
      ∀ row, expr.eval row = some true ↔ ∃ expr ∈ exprs, expr.eval row = some true := by
  match exprs with
  | [] => exact absurd (List.length_eq_zero_iff.mp length.symm) some'
  | [expr] =>
      have single : ¬ kept.length > 1 := by simp at length; omega
      rw [if_neg single]
      exact ⟨expr, standalone, by simp⟩
  | first :: second :: rest =>
      have several : kept.length > 1 := by simp at length; omega
      rw [if_pos several, ← length]
      exact ⟨_, standalone.join_or (by simp), fun row => Expression.eval_or _⟩

/-- A composite bound's nodes: a condition for the leading part, which every
row within the bound meets, and one for the legs. -/
theorem rangeNodes_mean (op : KeyOp) {keys : List (StoolapField × KeyValue)} (out : List Node)
    (means : ∀ op, ∀ key ∈ keys, (compare key.1 op key.2).Means schema tableName (takes op key)) :
    match rangeNodes op keys out with
    | (false, _) => ∀ row, ¬ LexTakes takes op keys row
    | (true, conds) => ∃ nodes exprs, conds = out ++ nodes ∧ Standalone schema tableName nodes exprs ∧
        ((∀ row, LexTakes takes op keys row → ∀ key ∈ keys.head?, takes op.lead key row) →
          ∀ row, Holds row exprs ↔ LexTakes takes op keys row) := by
  obtain ⟨properties, legs, meaning⟩ := legsOf_mean op means
  have collected := collectLegs_means legs
  have same : collectLegs ((List.range keys.length).map
      (legPreds op (if op.isLower then .gt else .lt) keys)) = collectLegs (legsOf op op.strict keys) := rfl
  simp only [rangeNodes, same]
  match found : collectLegs (legsOf op op.strict keys) with
  | none =>
      simp only [found, meaning] at collected
      exact ⟨[], [], by simp, Standalone.nil, fun _ row => by simp [collected row]⟩
  | some [] =>
      simp only [found, meaning] at collected
      obtain ⟨exprs, length, _, meets⟩ := collected
      have empty : exprs = [] := List.length_eq_zero_iff.mp length
      subst empty
      simpa using meets
  | some (leg :: legs) =>
      simp only [found, meaning] at collected
      obtain ⟨exprs, length, standalone, meets⟩ := collected
      obtain ⟨expr, standaloneLegs, meansLegs⟩ := legs_expression length (by simp) standalone
      simp only [meets] at meansLegs
      have joined (out : List Node) : (if (leg :: legs).length > 1 then
            out ++ (leg :: legs).flatMap legNodes ++ [.or (leg :: legs).length]
          else out ++ (leg :: legs).flatMap legNodes) =
          out ++ (if (leg :: legs).length > 1 then
            (leg :: legs).flatMap legNodes ++ [.or (leg :: legs).length]
          else (leg :: legs).flatMap legNodes) := by
        split <;> simp
      have alone : ∃ nodes exprs,
          (if (leg :: legs).length > 1 then
            out ++ (leg :: legs).flatMap legNodes ++ [.or (leg :: legs).length]
          else out ++ (leg :: legs).flatMap legNodes) = out ++ nodes ∧
          Standalone schema tableName nodes exprs ∧
          ((∀ row, LexTakes takes op keys row → ∀ key ∈ keys.head?, takes op.lead key row) →
            ∀ row, Holds row exprs ↔ LexTakes takes op keys row) :=
        ⟨_, [expr], joined out, standaloneLegs, fun _ row => by rw [holds_singleton, meansLegs]⟩
      cases head : keys.head? with
      | none => simpa only [head] using alone
      | some key =>
          have lead := means op.lead key (List.mem_of_mem_head? head)
          have leadOp : (if op.isLower = true then KeyOp.ge else KeyOp.le) = op.lead := rfl
          simp only [leadOp]
          cases written : compare key.1 op.lead key.2 with
          | constTrue => simpa only [head] using alone
          | constFalse => simpa only [head] using alone
          | nodes conds =>
              rw [written] at lead
              obtain ⟨leadExpr, leadStandalone, leadMeans⟩ := lead
              refine ⟨_, [leadExpr] ++ [expr], (joined _).trans (List.append_assoc _ _ _),
                leadStandalone.append standaloneLegs, fun implied row => ?_⟩
              rw [holds_append, holds_singleton, holds_singleton, leadMeans, meansLegs]
              exact and_iff_right_of_imp fun within => implied row within key rfl

end Range

/-- A part whose column the table has. -/
abbrev InSchema (schema : Schema) (f : StoolapField) : Prop :=
  f.columnIndex < schema.columns.length

/-- A bound value of its column's type, which the cast leaves as it is. -/
def Fits (schema : Schema) (key : StoolapField × KeyValue) : Prop :=
  match key.2 with
  | .value value => ∃ scalar, value = some scalar ∧
      ∀ column, schema.columns[key.1.columnIndex]? = some column →
        Stoolap.coerce column.dataType value = value
  | .null | .beyond => True

theorem condExpression_exists (tableName : String) {f : StoolapField} (inSchema : InSchema schema f) (op : CondOp)
    (value : Value) :
    ∃ expr, condExpression schema tableName { column := f.columnIndex, op, value } = .ok expr := by
  simp only [condExpression, List.getElem?_eq_getElem inSchema]
  cases op <;> exact ⟨_, rfl⟩

theorem standalone_cond (tableName : String) {f : StoolapField} (inSchema : InSchema schema f)
    (op : CondOp) (value : Value) : ∃ expr, Standalone schema tableName [cond f op value] [expr] := by
  obtain ⟨expr, built⟩ := condExpression_exists tableName inSchema op value
  exact ⟨expr, Standalone.cond built⟩

/-- What a comparison's own nodes say of a row. -/
def Pred.Written (schema : Schema) (tableName : String) (pred : Pred) (row : Row) : Prop :=
  match pred with
  | .constTrue => True
  | .constFalse => False
  | .nodes conds => ∃ exprs, buildExpressions schema tableName conds [] = .ok exprs ∧ Holds row exprs

theorem Pred.Means.written {conds : List Node} {expr : Expression}
    (standalone : Standalone schema tableName conds [expr]) :
    (Pred.nodes conds).Means schema tableName ((Pred.nodes conds).Written schema tableName) := by
  refine ⟨expr, standalone, fun row => ?_⟩
  simp [Pred.Written, standalone.builds]

theorem compare_written (tableName : String) {f : StoolapField} (inSchema : InSchema schema f)
    (op : KeyOp) (key : KeyValue) :
    (compare f op key).Means schema tableName ((compare f op key).Written schema tableName) := by
  have written (condOp : CondOp) (value : Value) :
      (Pred.nodes [cond f condOp value]).Means schema tableName
        ((Pred.nodes [cond f condOp value]).Written schema tableName) := by
    obtain ⟨expr, standalone⟩ := standalone_cond tableName inSchema condOp value
    exact Pred.Means.written standalone
  cases key with
  | value value => exact written _ _
  | null => cases op <;> first | exact written _ _ | simp [compare, Pred.Means, Pred.Written]
  | beyond => cases op <;> simp [compare, Pred.Means, Pred.Written]

/-- A row's value of one part is within the bound there. -/
def PartMeets (op : KeyOp) (key : StoolapField × KeyValue) (row : Row) : Prop :=
  Meets op [key.2] [row.value key.1.columnIndex]

def KeyOp.operator : KeyOp → Operator
  | .eq => .eq
  | .gt => .gt
  | .ge => .gte
  | .lt => .lt
  | .le => .lte

/-- Stoolap's comparison with a value: a NULL never passes it, and under a
lower bound sorts below the value anyway. -/
theorem compareValue_meets (op : KeyOp) (bound : Scalar) (stored : Value) :
    compareValue op.operator stored (some bound) = some true ↔
      Meets op [.value (some bound)] [stored] := by
  cases stored with
  | none => cases op <;> simp [compareValue, Meets, lexOrder, leftOut, partOrder]
  | some stored =>
      cases order : Stoolap.compare stored bound <;> cases op <;>
        simp [compareValue, KeyOp.operator, Operator.holds, order, Meets, lexOrder, leftOut, partOrder]

theorem condExpression_compared {f : StoolapField} (inSchema : InSchema schema f) (op : KeyOp)
    (value : Value) :
    condExpression schema tableName { column := f.columnIndex, op := condOp op, value } =
      .ok (.comparison f.columnIndex op.operator
        (Stoolap.coerce schema.columns[f.columnIndex].dataType value)) := by
  simp only [condExpression, List.getElem?_eq_getElem inSchema]
  cases op <;> rfl

theorem standalone_isNull {f : StoolapField} (inSchema : InSchema schema f) :
    Standalone schema tableName [cond f .isNull none] [.isNull f.columnIndex] :=
  Standalone.cond (by simp only [condExpression, List.getElem?_eq_getElem inSchema])

theorem standalone_isNotNull {f : StoolapField} (inSchema : InSchema schema f) :
    Standalone schema tableName [cond f .isNotNull none] [.isNotNull f.columnIndex] :=
  Standalone.cond (by simp only [condExpression, List.getElem?_eq_getElem inSchema])

/-- One comparison is MariaDB's order of one part. -/
theorem compare_means {key : StoolapField × KeyValue} (inSchema : InSchema schema key.1)
    (fits : Fits schema key) (op : KeyOp) :
    (compare key.1 op key.2).Means schema tableName (PartMeets op key) := by
  obtain ⟨f, key⟩ := key
  cases key with
  | value value =>
      obtain ⟨bound, rfl, coerced⟩ := fits
      have same := coerced _ (List.getElem?_eq_getElem inSchema)
      refine ⟨_, Standalone.cond (condExpression_compared inSchema op (some bound)), fun row => ?_⟩
      rw [same, Expression.eval, PartMeets, compareValue_meets]
  | null =>
      cases op with
      | eq | le =>
          refine ⟨_, standalone_isNull inSchema, fun row => ?_⟩
          cases stored : row.value f.columnIndex <;>
            simp [Expression.eval, stored, PartMeets, Meets, lexOrder, leftOut, partOrder]
      | gt =>
          refine ⟨_, standalone_isNotNull inSchema, fun row => ?_⟩
          cases stored : row.value f.columnIndex <;>
            simp [Expression.eval, stored, PartMeets, Meets, lexOrder, partOrder]
      | ge | lt =>
          intro row
          cases stored : row.value f.columnIndex <;>
            simp [stored, PartMeets, Meets, lexOrder, partOrder]
  | beyond =>
      cases op <;> intro row <;> simp [PartMeets, Meets, lexOrder, leftOut, partOrder]

/-- The order of the first part decides, and an equal one leaves it to the
rest. -/
theorem meets_cons {op : KeyOp} (ordered : op ≠ .eq) (key : KeyValue) (keys : List KeyValue)
    (stored : Value) (row : List Value) :
    Meets op (key :: keys) (stored :: row) ↔
      Meets op.strict [key] [stored] ∨ (Meets .eq [key] [stored] ∧ Meets op keys row) := by
  cases first : partOrder key stored <;> cases op <;>
    simp_all [Meets, lexOrder, leftOut, KeyOp.strict, KeyOp.isLower]

/-- Part by part, the legs are the lexicographic order. -/
theorem lexTakes_meets {op : KeyOp} {keys : List (StoolapField × KeyValue)} (ordered : op ≠ .eq)
    (some' : keys ≠ []) (row : Row) :
    LexTakes PartMeets op keys row ↔
      Meets op (keys.map Prod.snd) (rowKey (keys.map Prod.fst) row) := by
  induction keys with
  | nil => exact absurd rfl some'
  | cons key rest ih =>
      cases rest with
      | nil => rfl
      | cons next rest =>
          have tail := ih (by simp)
          have split := meets_cons ordered key.2 ((next :: rest).map Prod.snd)
            (row.value key.1.columnIndex) (rowKey ((next :: rest).map Prod.fst) row)
          rw [LexTakes, tail, PartMeets, PartMeets, ← split]
          rfl

/-- A row within the bound is within the leading part's. -/
theorem meets_lead {op : KeyOp} (ordered : op ≠ .eq) (key : KeyValue) (keys : List KeyValue)
    (stored : Value) (row : List Value) (within : Meets op (key :: keys) (stored :: row)) :
    Meets op.lead [key] [stored] := by
  cases first : partOrder key stored <;> cases op <;>
    simp_all [Meets, lexOrder, leftOut, KeyOp.lead, KeyOp.isLower]

/-- `conds` is `out` and nodes that stand alone. -/
def Appends (schema : Schema) (tableName : String) (out conds : List Node) : Prop :=
  ∃ nodes exprs, conds = out ++ nodes ∧ Standalone schema tableName nodes exprs

theorem Appends.refl (out : List Node) : Appends schema tableName out out :=
  ⟨[], [], by simp, Standalone.nil⟩

theorem Appends.trans {out middle conds : List Node} (first : Appends schema tableName out middle)
    (second : Appends schema tableName middle conds) : Appends schema tableName out conds := by
  obtain ⟨nodes, exprs, rfl, standalone⟩ := first
  obtain ⟨more, moreExprs, rfl, standaloneMore⟩ := second
  exact ⟨nodes ++ more, exprs ++ moreExprs, by simp, standalone.append standaloneMore⟩

theorem Appends.of_standalone {out nodes : List Node} {exprs : List Expression}
    (standalone : Standalone schema tableName nodes exprs) :
    Appends schema tableName out (out ++ nodes) :=
  ⟨nodes, exprs, rfl, standalone⟩

theorem compareInto_appends {f : StoolapField} {op : KeyOp} {value : KeyValue}
    {out conds : List Node} (inSchema : InSchema schema f)
    (appended : compareInto f op value out = some conds) : Appends schema tableName out conds := by
  have means := compare_written tableName inSchema op value
  cases compared : compare f op value with
  | constTrue =>
      simp only [compareInto, compared, Option.some.injEq] at appended
      exact appended ▸ Appends.refl out
  | constFalse => simp [compareInto, compared] at appended
  | nodes nodes =>
      simp only [compareInto, compared, Option.some.injEq] at appended
      rw [compared] at means
      obtain ⟨expr, standalone, _⟩ := means
      exact appended ▸ Appends.of_standalone standalone

theorem standalone_conds (tableName : String) {f : StoolapField} (inSchema : InSchema schema f)
    (op : CondOp) (values : List Value) : ∃ exprs : List Expression, exprs.length = values.length ∧
      Standalone schema tableName (values.map (cond f op)) exprs := by
  induction values with
  | nil => exact ⟨[], rfl, Standalone.nil⟩
  | cons value values ih =>
      obtain ⟨exprs, length, rest⟩ := ih
      obtain ⟨expr, first⟩ := standalone_cond tableName inSchema op value
      exact ⟨expr :: exprs, by simp [length], first.append rest⟩

theorem padSpaceNodes_appends {f : StoolapField} {text : List UInt8} {out : List Node}
    (inSchema : InSchema schema f) :
    Appends schema tableName out (out ++ padSpaceNodes f text) := by
  simp only [padSpaceNodes]
  split
  · obtain ⟨_, lower⟩ := standalone_cond tableName inSchema .ge
      (some (.text (trimSpaces text ++ List.replicate 0 0x20)))
    obtain ⟨_, upper⟩ := standalone_cond tableName inSchema .le
      (some (.text (trimSpaces text ++
        List.replicate (f.maxChars.toNat - charCount (trimSpaces text)) 0x20)))
    exact Appends.of_standalone (lower.append upper)
  · obtain ⟨exprs, length, standalone⟩ := standalone_conds tableName inSchema .eq
      ((List.range (f.maxChars.toNat - charCount (trimSpaces text) + 1)).map fun count =>
        some (.text (trimSpaces text ++ List.replicate count 0x20)))
    rw [List.map_map] at standalone
    simp only [List.length_map, List.length_range] at length
    split
    · have some' : exprs ≠ [] := fun empty => by simp [empty] at length
      have joined := standalone.join_or some'
      rw [length] at joined
      exact Appends.of_standalone joined
    · exact Appends.of_standalone standalone

theorem leadingNodes_appends {f : StoolapField} {op : KeyOp} {src : RecordIn} {out : List Node}
    (inSchema : InSchema schema f) :
    Appends schema tableName out (out ++ leadingNodes f op src) := by
  have bounded (condOp : CondOp) (value : Value) :=
    standalone_cond tableName inSchema condOp value
  simp only [leadingNodes]
  split
  · rename_i value _
    split
    · split
      · obtain ⟨upper, standalone⟩ := bounded .le value
        exact Appends.of_standalone
          ((standalone.append (standalone_isNull inSchema)).join_or (by simp))
      · obtain ⟨_, standalone⟩ := bounded .le value
        exact Appends.of_standalone standalone
    · obtain ⟨_, standalone⟩ := bounded .ge value
      exact Appends.of_standalone standalone
  · exact Appends.of_standalone Standalone.nil

theorem lookupNodes_appends {bound : StoolapKeyBound} {src : RecordIn} {start : List Node}
    {index : Nat} {parts : List StoolapField} {out conds : List Node}
    (inSchema : ∀ f ∈ parts, InSchema schema f)
    (appended : lookupNodes bound src start index parts out = .ok (true, conds)) :
    Appends schema tableName out conds := by
  induction parts generalizing index out with
  | nil =>
      simp only [lookupNodes, Except.ok.injEq, Prod.mk.injEq, true_and] at appended
      exact appended ▸ Appends.refl out
  | cons f rest ih =>
      have inRest : ∀ f ∈ rest, InSchema schema f := fun f member => inSchema f (by simp [member])
      simp only [lookupNodes] at appended
      split at appended
      · split at appended
        · split at appended
          · contradiction
          · exact (padSpaceNodes_appends (inSchema f (by simp))).trans (ih inRest appended)
          · exact ih inRest appended
        · exact ih inRest appended
      · split at appended
        · contradiction
        · split at appended
          · simp at appended
          · rename_i compared
            exact (compareInto_appends (inSchema f (by simp)) compared).trans (ih inRest appended)

omit [Stoolap] in
theorem boundParts_mem {parts : List StoolapField} {bound : StoolapKeyBound} {f : StoolapField}
    (member : f ∈ boundParts parts bound) : f ∈ parts :=
  List.mem_of_mem_take member

/-- Whatever its mode, a bound's nodes stand alone: no join in them takes
another bound's conditions. -/
theorem boundNodes_appends {parts : List StoolapField} {bound : StoolapKeyBound} {src : RecordIn}
    {out conds : List Node} (inSchema : ∀ f ∈ parts, InSchema schema f)
    (appended : boundNodes parts bound src out = .ok (true, conds)) :
    Appends schema tableName out conds := by
  have bound' : ∀ f ∈ boundParts parts bound, InSchema schema f :=
    fun f member => inSchema f (boundParts_mem member)
  simp only [boundNodes] at appended
  split at appended
  · simp only [Except.ok.injEq, Prod.mk.injEq, true_and] at appended
    exact appended ▸ Appends.refl out
  · rename_i f rest bindsParts
    rw [bindsParts] at bound'
    split at appended
    · simp only [Except.ok.injEq, Prod.mk.injEq, true_and] at appended
      exact appended ▸ leadingNodes_appends (bound' f (by simp))
    · split at appended
      · split at appended
        · contradiction
        · rename_i values _
          simp only [Except.ok.injEq] at appended
          have means : ∀ op, ∀ key ∈ (f :: rest).zip values, (compare key.1 op key.2).Means schema tableName
              ((compare key.1 op key.2).Written schema tableName) :=
            fun op key member => compare_written tableName (bound' key.1 (List.of_mem_zip member).1) op key.2
          have mean := rangeNodes_mean bound.op out means
          rw [appended] at mean
          obtain ⟨nodes, exprs, same, standalone, _⟩ := mean
          exact ⟨nodes, exprs, same, standalone⟩
      · exact lookupNodes_appends bound' appended

theorem readConds_appends (tableName : String) {parts : List StoolapField}
    {encode : Option (Int32 → RecordBuffer → Except EncodeError Value)}
    {bounds : List StoolapKeyBound} {out conds : List Node} (inSchema : ∀ f ∈ parts, InSchema schema f)
    (read : readConds parts encode bounds out = .ok (some conds)) :
    Appends schema tableName out conds := by
  induction bounds generalizing out with
  | nil =>
      simp only [readConds, Except.ok.injEq, Option.some.injEq] at read
      exact read ▸ Appends.refl out
  | cons bound bounds ih =>
      simp only [readConds] at read
      split at read
      · contradiction
      · simp at read
      · rename_i appended
        exact (boundNodes_appends inSchema appended).trans (ih read)

/-- A range bound's own nodes are its order, over one part or several. -/
theorem boundNodes_range (tableName : String) {parts : List StoolapField} {bound : StoolapKeyBound}
    {src : RecordIn} {keys : List KeyValue} (out : List Node) (range : bound.mode = .range) (ordered : bound.op ≠ .eq)
    (unskipped : bound.skip = 0) (binds : boundParts parts bound ≠ [])
    (inSchema : ∀ f ∈ parts, InSchema schema f)
    (read : (boundParts parts bound).mapM (keyValue · src) = .ok keys)
    (fits : ∀ key ∈ (boundParts parts bound).zip keys, Fits schema key) :
    match boundNodes parts bound src out with
    | .error _ => False
    | .ok (false, _) => ∀ row, ¬ Meets bound.op keys (rowKey (boundParts parts bound) row)
    | .ok (true, conds) => ∃ nodes exprs, conds = out ++ nodes ∧
        Standalone schema tableName nodes exprs ∧
        ∀ row, Holds row exprs ↔ Meets bound.op keys (rowKey (boundParts parts bound) row) := by
  have length := ExceptList.mapM_length read
  have inBound : ∀ f ∈ boundParts parts bound, InSchema schema f :=
    fun f member => inSchema f (boundParts_mem member)
  have means : ∀ op, ∀ key ∈ (boundParts parts bound).zip keys,
      (compare key.1 op key.2).Means schema tableName (PartMeets op key) :=
    fun op key member => compare_means (inBound key.1 (List.of_mem_zip member).1) (fits key member) op
  have notLeading : bound.mode ≠ .leading := by simp [range]
  simp only [boundNodes]
  cases found : boundParts parts bound with
  | nil => exact absurd found binds
  | cons f rest =>
      rw [found] at read length means inBound
      simp only [if_neg notLeading]
      cases rest with
      | nil =>
          obtain ⟨key, rfl⟩ := List.length_eq_one_iff.mp length
          have value : keyValue f src = .ok key := by
            simp only [List.mapM_cons, List.mapM_nil, bind, Except.bind, pure, Except.pure] at read
            split at read
            · contradiction
            · rename_i value
              simp only [Except.ok.injEq, List.cons.injEq, and_true] at read
              rw [value, read]
          have zero (index : Nat) : partBit bound.skip index = false := by simp [partBit, unskipped]
          have meaning := means bound.op (f, key) (by simp)
          simp only [List.isEmpty_nil, not_true_eq_false, false_and, and_false, if_false, lookupNodes,
            zero, Bool.false_eq_true, value, compareInto, if_true]
          cases compared : compare f bound.op key with
          | constTrue =>
              rw [compared] at meaning
              exact ⟨[], [], by simp, Standalone.nil, fun row => ⟨fun _ => meaning row, fun _ => holds_nil⟩⟩
          | constFalse =>
              rw [compared] at meaning
              exact meaning
          | nodes conds =>
              rw [compared] at meaning
              obtain ⟨expr, standalone, holds⟩ := meaning
              exact ⟨conds, [expr], rfl, standalone, fun row => by rw [holds_singleton, holds]; rfl⟩
      | cons next rest =>
          have several : bound.mode = .range ∧ ¬ (next :: rest).isEmpty = true ∧ bound.op ≠ .eq :=
            ⟨range, by simp, ordered⟩
          rw [if_pos several, read]
          have mean := rangeNodes_mean bound.op out means
          obtain ⟨key, keys, rfl⟩ := List.exists_cons_of_length_eq_add_one length
          have some' : (f :: next :: rest).zip (key :: keys) ≠ [] := by simp
          have whole (row : Row) : LexTakes PartMeets bound.op ((f :: next :: rest).zip (key :: keys)) row ↔
              Meets bound.op (key :: keys) (rowKey (f :: next :: rest) row) := by
            rw [lexTakes_meets ordered some', List.map_snd_zip (by omega), List.map_fst_zip (by omega)]
          simp only [whole] at mean
          have lead (row : Row) (within : Meets bound.op (key :: keys) (rowKey (f :: next :: rest) row)) :
              ∀ head ∈ ((f :: next :: rest).zip (key :: keys)).head?, PartMeets bound.op.lead head row := by
            intro head isHead
            simp only [List.zip_cons_cons, List.head?_cons, Option.mem_def, Option.some.injEq] at isHead
            subst isHead
            exact meets_lead ordered _ _ _ _ within
          cases nodes : rangeNodes bound.op ((f :: next :: rest).zip (key :: keys)) out with
          | mk possible conds =>
              rw [nodes] at mean
              simp only [nodes]
              cases possible with
              | false => exact mean
              | true =>
                  obtain ⟨own, exprs, same, standalone, meaning⟩ := mean
                  exact ⟨own, exprs, same, standalone, meaning lead⟩

/-- In a read of any bounds on a key, a range bound is one group of ANDed
conditions of its own, met by the rows in MariaDB's order and no others. -/
theorem range_bound_conditions {parts : List StoolapField} {bound : StoolapKeyBound}
    {encode : Option (Int32 → RecordBuffer → Except EncodeError Value)} {keys : List KeyValue}
    {earlier : List StoolapKeyBound} {out : List Node} (range : bound.mode = .range)
    (ordered : bound.op ≠ .eq) (unskipped : bound.skip = 0) (binds : boundParts parts bound ≠ [])
    (inSchema : ∀ f ∈ parts, InSchema schema f)
    (read : (boundParts parts bound).mapM (keyValue · { record := bound.record, encode }) = .ok keys)
    (fits : ∀ key ∈ (boundParts parts bound).zip keys, Fits schema key)
    (earlierRead : readConds parts encode earlier [] = .ok (some out)) :
    match boundNodes parts bound { record := bound.record, encode } out with
    | .error _ => False
    | .ok (false, _) => ∀ row, ¬ Meets bound.op keys (rowKey (boundParts parts bound) row)
    | .ok (true, conds) => ∃ nodes exprs, conds = out ++ nodes ∧
        (∀ row, Holds row exprs ↔ Meets bound.op keys (rowKey (boundParts parts bound) row)) ∧
        (nodes = [] → ∀ row, Meets bound.op keys (rowKey (boundParts parts bound) row)) ∧
        ∀ later final, readConds parts encode later conds = .ok (some final) →
          ∃ before after, buildExpressions schema tableName final [] =
            .ok (before ++ exprs ++ after) := by
  have own := boundNodes_range tableName out range ordered unskipped binds
    inSchema read fits
  cases appended : boundNodes parts bound { record := bound.record, encode } out with
  | error message => rw [appended] at own; exact own
  | ok result =>
      obtain ⟨possible, conds⟩ := result
      rw [appended] at own
      cases possible with
      | false => exact own
      | true =>
          obtain ⟨nodes, exprs, same, standalone, meaning⟩ := own
          refine ⟨nodes, exprs, same, meaning, fun empty row => ?_, fun later final laterRead => ?_⟩
          · subst empty
            have built := standalone.builds
            simp only [buildExpressions, Except.ok.injEq] at built
            rw [← meaning row, ← built]
            exact holds_nil
          · obtain ⟨first, before, firstIs, standaloneFirst⟩ :=
              readConds_appends tableName inSchema earlierRead
            obtain ⟨last, after, lastIs, standaloneLast⟩ :=
              readConds_appends tableName inSchema laterRead
            refine ⟨before, after, ?_⟩
            rw [lastIs, same, firstIs, List.nil_append]
            exact ((standaloneFirst.append standalone).append standaloneLast).builds

/-- Two nullable INT columns, `b`'s NULL bit set in the record `(7, NULL)`. -/
def pairParts : List StoolapField :=
  [{ column := 0, kind := .int, offset := 1, nullOffset := 0, nullMask := 2, length := 4,
     maxChars := 0, isUnsigned := false, field := 0, packLength := 4 },
   { column := 1, kind := .int, offset := 5, nullOffset := 0, nullMask := 1, length := 4,
     maxChars := 0, isUnsigned := false, field := 1, packLength := 4 }]

def pairBound : StoolapKeyBound where
  record offset := ([1, 7].getD offset 0)
  nparts := 2
  op := .lt
  skip := 0
  pad := 0
  mode := .range

def pairSchema : Schema where
  columns := [{ name := "a", dataType := .integer }, { name := "b", dataType := .integer }]
  pkColumn := none

omit [Stoolap] in
/-- `(a, b) < (7, NULL)` takes `(6, 9)` and leaves out `(7, 1)` and, as an
upper bound, `(NULL, 1)`. -/
theorem range_bound_conditions_pair :
    letI := Stoolap.reference
    ∃ exprs, Holds [some (.integer 6), some (.integer 9)] exprs ∧
      ¬ Holds [some (.integer 7), some (.integer 1)] exprs ∧
      ¬ Holds [none, some (.integer 1)] exprs := by
  let reference := Stoolap.reference
  have conditions := @range_bound_conditions reference pairSchema "t" pairParts pairBound none
    [.value (some (.integer 7)), .null] [] [] rfl (by decide) rfl
    (by simp [boundParts, pairBound, pairParts]) (by simp [pairParts, pairSchema, InSchema]; decide) (by rfl)
    (by simp [boundParts, pairBound, pairParts, Fits]; decide) rfl
  have appended : boundNodes pairParts pairBound { record := pairBound.record, encode := none } [] =
      .ok (true, [.cond { column := 0, op := .le, value := some (.integer 7) },
        .cond { column := 0, op := .lt, value := some (.integer 7) }]) := rfl
  rw [appended] at conditions
  obtain ⟨nodes, exprs, _, meaning, _⟩ := conditions
  exact ⟨exprs, (meaning _).mpr (by decide), fun holds => absurd ((meaning _).mp holds) (by decide),
    fun holds => absurd ((meaning _).mp holds) (by decide)⟩

end StoolapMariadb.Key
