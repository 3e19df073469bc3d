import StoolapMariadb.SqlGen.Guard
import StoolapMariadb.SqlGen.FromRows

namespace StoolapMariadb.SqlGen

/-! The order of a SET list: a value that is accepted reads no column assigned
before it, so the list may be evaluated at once. -/

open StateExcept

mutual

/-- A value without a subquery, as MariaDB prepares it: the third argument of
NULLIF is its own copy of the first, a basic constant reads no column, and a
rank has no arguments. -/
def Item.Simple : Item → Prop
  | .field _ _ | .const _ _ | .null _ | .param _ | .other _ => True
  | .ref _ _ _ target => optionSimple target
  | .func _ _ type args => itemsSimple args ∧ (type = .named .nullif → ∀ x y z, args = [x, y, z] → z = x)
  | .cond _ _ args => itemsSimple args
  | .sum _ _ args => itemsSimple args ∧ ∀ x ∈ args, x.basicConstItem = true → x.reads = []
  | .window _ func args partition order _ =>
      itemsSimple args ∧ (∀ x ∈ args, x.basicConstItem = true → x.reads = []) ∧
        (func = .rowNumber ∨ func = .rank ∨ func = .denseRank → args = []) ∧
        ordersSimple partition ∧ ordersSimple order
  | .subselect _ _ _ _ => False

def optionSimple : Option Item → Prop
  | none => True
  | some it => it.Simple

def itemsSimple : List Item → Prop
  | [] => True
  | it :: items => it.Simple ∧ itemsSimple items

def ordersSimple : List Order → Prop
  | [] => True
  | .mk it _ :: keys => it.Simple ∧ ordersSimple keys

end

/-- A column that is read is one that may be, also behind a view's name. -/
inductive Reaches (may : Field → Prop) : Item → Prop where
  | field {attrs f} (allowed : may f) : Reaches may (.field attrs (some f))
  | through {attrs id target} (leaves : ∀ leaf ∈ target.reads, Reaches may leaf) :
      Reaches may (.ref attrs .viewRef id (some target))

/-- All an item reads. -/
def Clear (may : Field → Prop) (it : Item) : Prop := ∀ leaf ∈ it.reads, Reaches may leaf

/-- The generator after some assignments, with no derived table. -/
def Assigned (assigned : List Field) (g : Gen) : Prop := g.assigned = assigned ∧ g.viewCols = []

def Unassigned (assigned : List Field) (f : Field) : Prop := ∀ other ∈ assigned, other.same f = false

/-- What is written for an item keeps to the columns not assigned yet. -/
structure Child.Clears (assigned : List Field) (it : Child) : Prop where
  node : Keeps (Assigned assigned) it.node (Clear (Unassigned assigned) it.item)
  plain : ∀ attrs type left unit, it.item ≠ .subselect attrs type left unit

section Reads

variable {may : Field → Prop} {items : List Item}

theorem clear_const {attrs : Attrs} {value : Literal} : Clear may (.const attrs value) := by
  intro leaf member
  cases member

theorem clear_of_reads {it : Item} (none : it.reads = []) : Clear may it := by
  intro leaf member
  rw [none] at member
  cases member

theorem mem_itemsReads {leaf : Item} : leaf ∈ itemsReads items ↔ ∃ it ∈ items, leaf ∈ it.reads := by
  induction items with
  | nil => simp [itemsReads]
  | cons it items ih => simp [itemsReads, ih]

theorem mem_ordersReads {leaf : Item} {keys : List Order} :
    leaf ∈ ordersReads keys ↔ ∃ it descending, Order.mk it descending ∈ keys ∧ leaf ∈ it.reads := by
  induction keys with
  | nil => simp [ordersReads]
  | cons key keys ih =>
      obtain ⟨it, descending⟩ := key
      simp only [ordersReads, List.mem_append, ih, List.mem_cons, Order.mk.injEq]
      constructor
      · rintro (here | ⟨other, direction, member, below⟩)
        · exact ⟨it, descending, .inl ⟨rfl, rfl⟩, here⟩
        · exact ⟨other, direction, .inr member, below⟩
      · rintro ⟨other, direction, ⟨rfl, rfl⟩ | member, below⟩
        · exact .inl below
        · exact .inr ⟨other, direction, member, below⟩

/-- An item that reads what others do. -/
theorem clear_of_items {it : Item} (same : it.reads = itemsReads items) (clear : ∀ arg ∈ items, Clear may arg) :
    Clear may it := by
  intro leaf member
  rw [same] at member
  obtain ⟨arg, argIn, read⟩ := mem_itemsReads.mp member
  exact clear arg argIn leaf read

/-- A reference reads what it points at. -/
theorem clear_ref {attrs : Attrs} {type : RefType} {id : ItemId} {target : Item} (clear : Clear may target) :
    Clear may (.ref attrs type id (some target)) := by
  intro leaf member
  simp only [Item.reads, optionReads] at member
  split at member
  · rw [List.mem_singleton.mp member]
    rename_i view
    subst view
    exact .through clear
  · exact clear leaf member

/-- A temporal literal is a constant. -/
theorem clear_of_temporalLiteral {col k : Item} {handler : Option HandlerType} {packed : Int64}
    (literal : temporalLiteral col k handler = some packed) : Clear may k := by
  unfold temporalLiteral at literal
  cases k with
  | const attrs value => exact clear_const
  | _ => simp at literal

end Reads

section Parts

variable {assigned : List Field} {it : Child} {args : List Child}

/-- All that the items of a list read. -/
def AllClear (assigned : List Field) (args : List Child) : Prop :=
  ∀ arg ∈ args, Clear (Unassigned assigned) arg.item

theorem Child.Clears.expr (clears : it.Clears assigned) :
    Keeps (Assigned assigned) it.expr (Clear (Unassigned assigned) it.item) :=
  .ite (fun _ => clears.node) fun _ => clears.node.bind fun _ clear => .pure clear

theorem Child.Clears.condition (clears : it.Clears assigned) :
    Keeps (Assigned assigned) it.condition (Clear (Unassigned assigned) it.item) :=
  .ite (fun _ => clears.node) fun _ => .throw

theorem Child.Clears.branch (clears : it.Clears assigned) (result : Cls) :
    Keeps (Assigned assigned) (it.branch result) (Clear (Unassigned assigned) it.item) :=
  .ite (fun _ => clears.expr) fun _ => clears.expr.bind fun _ clear => .pure clear

/-- Items written one after another. -/
theorem each_clears {all : List Child → GenM (List Sql)} {one : Child → GenM Sql} (nil : all [] = pure [])
    (cons : ∀ arg args, all (arg :: args) = do return (← one arg) :: (← all args))
    (clears : ∀ arg ∈ args, Keeps (Assigned assigned) (one arg) (Clear (Unassigned assigned) arg.item)) :
    Keeps (Assigned assigned) (all args) (AllClear assigned args) := by
  induction args with
  | nil =>
      rw [nil]
      exact .pure fun arg member => by cases member
  | cons arg args ih =>
      obtain ⟨first, rest⟩ := List.forall_mem_cons.mp clears
      rw [cons]
      exact first.bind fun _ clear => (ih rest).bind fun _ others =>
        .pure (List.forall_mem_cons.mpr ⟨clear, others⟩)

theorem argsCsv_clears (clears : ∀ arg ∈ args, arg.Clears assigned) :
    Keeps (Assigned assigned) (argsCsv args) (AllClear assigned args) :=
  each_clears rfl (fun _ _ => rfl) fun arg member => (clears arg member).expr

theorem conditions_clears (clears : ∀ arg ∈ args, arg.Clears assigned) :
    Keeps (Assigned assigned) (conditions args) (AllClear assigned args) :=
  each_clears rfl (fun _ _ => rfl) fun arg member => (clears arg member).condition

theorem branchArgs_clears (result : Cls) (clears : ∀ arg ∈ args, arg.Clears assigned) :
    Keeps (Assigned assigned) (branchArgs result args) (AllClear assigned args) :=
  each_clears rfl (fun _ _ => rfl) fun arg member => (clears arg member).branch result

theorem elseArm_clears {otherwise : Option Child} (clears : ∀ value ∈ otherwise, value.Clears assigned)
    (result : Cls) : Keeps (Assigned assigned) (elseArm result otherwise) (AllClear assigned otherwise.toList) := by
  cases otherwise with
  | none => exact .pure fun arg member => by cases member
  | some value =>
      refine ((clears value rfl).branch result).bind fun _ clear => .pure fun arg member => ?_
      rw [List.mem_singleton.mp member]
      exact clear

theorem arms_clears {test : Child → GenM Sql} {result : Cls} {otherwise : Option Child} {whens values : List Child}
    (paired : whens.length = values.length)
    (tests : ∀ when ∈ whens, Keeps (Assigned assigned) (test when) (Clear (Unassigned assigned) when.item))
    (branches : ∀ value ∈ values, value.Clears assigned) (last : ∀ value ∈ otherwise, value.Clears assigned) :
    Keeps (Assigned assigned) (arms test result otherwise whens values)
      (AllClear assigned (whens ++ values ++ otherwise.toList)) := by
  induction whens generalizing values with
  | nil =>
      obtain rfl := List.eq_nil_of_length_eq_zero paired.symm
      exact elseArm_clears last result
  | cons when whens ih =>
      cases values with
      | nil => cases paired
      | cons value values =>
          obtain ⟨firstTest, restTests⟩ := List.forall_mem_cons.mp tests
          obtain ⟨firstValue, restValues⟩ := List.forall_mem_cons.mp branches
          refine firstTest.bind fun _ whenClear => (firstValue.branch result).bind fun _ valueClear =>
            (ih (Nat.succ.inj paired) restTests restValues).bind fun _ others => .pure fun arg member => ?_
          simp only [List.cons_append, List.append_assoc, List.mem_cons, List.mem_append] at member
          rcases member with rfl | among | rfl | among | among
          · exact whenClear
          · exact others arg (by simp [among])
          · exact valueClear
          · exact others arg (by simp [among])
          · exact others arg (by simpa using Or.inr (Or.inr among))

/-- The arguments of a CASE: its WHENs, its values, and an odd one for ELSE. -/
theorem mem_case_args {arg : Child} (member : arg ∈ args) :
    arg ∈ args.take (args.length / 2) ++ (args.drop (args.length / 2)).take (args.length / 2) ++
      (if args.length % 2 = 1 then args.getLast? else none).toList := by
  have parts : args = args.take (args.length / 2) ++ ((args.drop (args.length / 2)).take (args.length / 2) ++
      (args.drop (args.length / 2)).drop (args.length / 2)) := by
    rw [List.take_append_drop, List.take_append_drop]
  rw [parts, List.mem_append, List.mem_append] at member
  rw [List.append_assoc, List.mem_append, List.mem_append]
  refine member.imp_right fun rest => rest.imp_right fun last => ?_
  have size : ((args.drop (args.length / 2)).drop (args.length / 2)).length = args.length % 2 := by
    rw [List.length_drop, List.length_drop]
    omega
  have odd : args.length % 2 = 1 := by
    have positive := List.length_pos_of_mem last
    omega
  obtain ⟨only, isOnly⟩ := List.length_eq_one_iff.mp (size.trans odd)
  rw [if_pos odd, parts, isOnly, List.getLast?_append, List.getLast?_append]
  rw [isOnly] at last
  simpa using last

theorem getLast_clears {odd : Prop} [Decidable odd] (clears : ∀ arg ∈ args, arg.Clears assigned) :
    ∀ arg ∈ (if odd then args.getLast? else none), arg.Clears assigned := by
  intro arg member
  split at member
  · exact clears arg (List.mem_of_getLast? member)
  · cases member

theorem caseArms_clears {test : Child → GenM Sql} (result : Cls)
    (tests : ∀ when ∈ args, Keeps (Assigned assigned) (test when) (Clear (Unassigned assigned) when.item))
    (clears : ∀ arg ∈ args, arg.Clears assigned) :
    Keeps (Assigned assigned)
      (arms test result (if args.length % 2 = 1 then args.getLast? else none) (args.take (args.length / 2))
        ((args.drop (args.length / 2)).take (args.length / 2)))
      (AllClear assigned args) := by
  refine (arms_clears ?_ ?_ ?_ (getLast_clears clears)).imp fun all arg member => all arg (mem_case_args member)
  · simp only [List.length_take, List.length_drop]
    omega
  · exact fun when member => tests when (List.mem_of_mem_take member)
  · exact fun value member => clears value (List.mem_of_mem_drop (List.mem_of_mem_take member))

theorem caseSearched_clears (f : Item) (clears : ∀ arg ∈ args, arg.Clears assigned) :
    Keeps (Assigned assigned) (caseSearched f args) (AllClear assigned args) :=
  .ite (fun _ => .throw) fun _ =>
    (caseArms_clears _ (fun when member => (clears when member).condition) clears).bind fun _ all => .pure all

theorem caseSimple_clears (f : Item) (collation : Option Types.Charset) {subject : Child}
    (clears : ∀ arg ∈ subject :: args, arg.Clears assigned) :
    Keeps (Assigned assigned) (caseSimple f collation subject args) (AllClear assigned (subject :: args)) := by
  obtain ⟨first, rest⟩ := List.forall_mem_cons.mp clears
  exact .read fun _ _ => .ite (fun _ => .throw) fun _ => .ite (fun _ => .throw) fun _ =>
    first.expr.bind fun _ clear =>
      (caseArms_clears _ (fun when member => (rest when member).expr) rest).bind fun _ all =>
        .pure (List.forall_mem_cons.mpr ⟨clear, all⟩)

/-- The items of a short list, one by one. -/
theorem allClear_one {x : Child} (clear : Clear (Unassigned assigned) x.item) : AllClear assigned [x] := by
  simpa [AllClear] using clear

theorem allClear_two {x y : Child} (first : Clear (Unassigned assigned) x.item)
    (second : Clear (Unassigned assigned) y.item) : AllClear assigned [x, y] := by
  simpa [AllClear] using ⟨first, second⟩

theorem allClear_three {x y z : Child} (first : Clear (Unassigned assigned) x.item)
    (second : Clear (Unassigned assigned) y.item) (third : Clear (Unassigned assigned) z.item) :
    AllClear assigned [x, y, z] := by
  simpa [AllClear] using ⟨first, second, third⟩

theorem arithmetic_clears (f : Item) (op : Arithmetic) (clears : ∀ arg ∈ args, arg.Clears assigned) :
    Keeps (Assigned assigned) (arithmetic f op args) (AllClear assigned args) := by
  unfold arithmetic
  split
  · rename_i x y
    exact .ite (fun _ => .throw) fun _ => (clears x (by simp)).expr.bind fun _ first =>
      (clears y (by simp)).expr.bind fun _ second => .pure (allClear_two first second)
  · exact .throw

theorem abs_clears (f : Item) (clears : ∀ arg ∈ args, arg.Clears assigned) :
    Keeps (Assigned assigned) (abs f args) (AllClear assigned args) := by
  unfold abs
  split
  · rename_i x
    exact .ite (fun _ => .throw) fun _ => (clears x (by simp)).expr.bind fun _ clear => .pure (allClear_one clear)
  · exact .throw

theorem charLength_clears (clears : ∀ arg ∈ args, arg.Clears assigned) :
    Keeps (Assigned assigned) (charLength args) (AllClear assigned args) := by
  unfold charLength
  split
  · rename_i x
    exact .ite (fun _ => .throw) fun _ => (clears x (by simp)).expr.bind fun _ clear => .pure (allClear_one clear)
  · exact .throw

theorem nullif_clears {x y : Child} (first : x.Clears assigned) (second : y.Clears assigned) :
    Keeps (Assigned assigned) (nullif x y) (AllClear assigned [x, y]) := by
  refine .read fun _ _ => .ite (fun _ => .throw) fun _ => (argsCsv_clears ?_).bind fun _ all => .pure all
  simpa using ⟨first, second⟩

theorem ifFunc_clears (f : Item) (clears : ∀ arg ∈ args, arg.Clears assigned) :
    Keeps (Assigned assigned) (ifFunc f args) (AllClear assigned args) := by
  unfold ifFunc
  split
  · rename_i test x y
    exact .ite (fun _ => .throw) fun _ => (clears test (by simp)).condition.bind fun _ first =>
      ((clears x (by simp)).branch _).bind fun _ second => ((clears y (by simp)).branch _).bind fun _ third =>
        .pure (allClear_three first second third)
  · exact .throw

/-- NULLIF's third argument, the copy, is not written. -/
theorem namedFunc_clears (f : Item) (name : FuncName) (clears : ∀ arg ∈ args, arg.Clears assigned)
    (copy : name = .nullif → ∀ x y z, args = [x, y, z] → z.item = x.item) :
    Keeps (Assigned assigned) (namedFunc f name args) (AllClear assigned args) := by
  cases name with
  | plus | minus | mul | div => exact arithmetic_clears f _ clears
  | abs => exact abs_clears f clears
  | coalesce | ifnull =>
      exact .ite (fun _ => .throw) fun _ => (branchArgs_clears _ clears).bind fun _ all => .pure all
  | nullif =>
      unfold namedFunc
      dsimp only
      split
      · exact nullif_clears (clears _ (by simp)) (clears _ (by simp))
      · rename_i x y z
        have same := copy rfl x y z rfl
        refine (nullif_clears (clears x (by simp)) (clears y (by simp))).imp fun all => ?_
        refine allClear_three (all x (by simp)) (all y (by simp)) ?_
        rw [same]
        exact all x (by simp)
      · exact .throw
  | ifFunc => exact ifFunc_clears f clears
  | charLength => exact charLength_clears clears
  | concat => exact .ite (fun _ => (argsCsv_clears clears).bind fun _ all => .pure all) fun _ => .throw
  | other => exact .throw

theorem compare_clears (op : Comparison) (handler : HandlerType) (collation : Option Types.Charset) {x y : Child}
    (first : x.Clears assigned) (second : y.Clears assigned) :
    Keeps (Assigned assigned) (compare op handler collation x y) (AllClear assigned [x, y]) := by
  unfold compare
  split
  · rename_i literal
    exact first.expr.bind fun _ clear => .pure (allClear_two clear (clear_of_temporalLiteral literal))
  · rename_i literal
    exact second.expr.bind fun _ clear => .pure (allClear_two (clear_of_temporalLiteral literal) clear)
  · exact .read fun _ _ => .ite (fun _ => first.expr.bind fun _ clear => second.expr.bind fun _ other =>
      .pure (allClear_two clear other)) fun _ => .throw

theorem between_clears (negated : Bool) (collation : Option Types.Charset) {x low high : Child}
    (clears : x.Clears assigned) (lowClears : low.Clears assigned) (highClears : high.Clears assigned) :
    Keeps (Assigned assigned) (between negated collation x low high) (AllClear assigned [x, low, high]) := by
  unfold between
  split
  · rename_i lowLiteral highLiteral
    exact clears.expr.bind fun _ clear => .pure (allClear_three clear (clear_of_temporalLiteral lowLiteral)
      (clear_of_temporalLiteral highLiteral))
  · exact .read fun _ _ => .ite (fun _ => clears.expr.bind fun _ first => lowClears.expr.bind fun _ second =>
      highClears.expr.bind fun _ third => .pure (allClear_three first second third)) fun _ => .throw

theorem inValues_clears (negated : Bool) (collation : Option Types.Charset) {x : Child} {list : List Child}
    (clears : ∀ arg ∈ x :: list, arg.Clears assigned) :
    Keeps (Assigned assigned) (inValues negated collation x list) (AllClear assigned (x :: list)) := by
  obtain ⟨first, rest⟩ := List.forall_mem_cons.mp clears
  exact .read fun _ _ => .ite (fun _ => .throw) fun _ => .ite (fun _ => first.expr.bind fun _ clear =>
    (argsCsv_clears rest).bind fun _ others => .pure (List.forall_mem_cons.mpr ⟨clear, others⟩)) fun _ => .throw

/-- A pattern is a constant, behind any references. -/
theorem literal_clears (it : Item) : Keeps (Assigned assigned) (literal it) (Clear (Unassigned assigned) it) := by
  induction it using literal.induct with
  | case1 attrs => exact .pure fun leaf member => by cases member
  | case2 attrs value =>
      have written : Keeps (Assigned assigned) (constant attrs value)
          (Clear (Unassigned assigned) (.const attrs value)) := by
        cases value with
        | temporal isTime packed zeroPart => exact .throw
        | _ => exact .ite (fun _ => .throw) fun _ => .pure clear_const
      exact written
  | case3 attrs type id target ih =>
      have below : Keeps (Assigned assigned) (literal target)
          (Clear (Unassigned assigned) (.ref attrs type id (some target))) := ih.imp clear_ref
      exact below
  | case4 it noNull noConst noRef =>
      unfold literal
      split
      · exact absurd rfl (noNull _)
      · exact absurd rfl (noConst _ _)
      · exact absurd rfl (noRef _ _ _ _)
      · exact .throw

theorem like_clears (negated : Bool) (collation : Option Types.Charset) (escape : Char) {x pattern : Child}
    (clears : x.Clears assigned) :
    Keeps (Assigned assigned) (like negated collation escape x pattern) (AllClear assigned [x, pattern]) :=
  .read fun _ _ => .ite (fun _ => .throw) fun _ => .ite (fun _ => .throw) fun _ =>
    clears.expr.bind fun _ first => (literal_clears pattern.item).bind fun _ second =>
      .pure (allClear_two first second)

theorem func_clears (f : Item) (variant : Bool) (type : FuncType) (clears : ∀ arg ∈ args, arg.Clears assigned)
    (copy : type = .named .nullif → ∀ x y z, args = [x, y, z] → z.item = x.item) :
    Keeps (Assigned assigned) (func f variant type args) (AllClear assigned args) := by
  refine .ite (fun _ => .throw) fun _ => ?_
  split
  · exact compare_clears _ _ _ (clears _ (by simp)) (clears _ (by simp))
  · exact .throw
  · exact .throw
  · exact (clears _ (by simp)).expr.bind fun _ clear => .pure (allClear_one clear)
  · exact .throw
  · exact (clears _ (by simp)).condition.bind fun _ clear => .pure (allClear_one clear)
  · exact .throw
  · exact between_clears _ _ (clears _ (by simp)) (clears _ (by simp)) (clears _ (by simp))
  · exact .throw
  · exact inValues_clears _ _ clears
  · exact .throw
  · exact like_clears _ _ _ (clears _ (by simp))
  · exact .throw
  · -- The wrapper of IN and EXISTS holds a subquery.
    unfold inOptimizer
    split
    · rename_i left right
      split
      · rename_i same
        exact absurd same ((clears right (by simp)).plain _ _ _ _)
      · exact .throw
    · exact .throw
  · exact .ite (fun _ => .throw) fun _ => (clears _ (by simp)).expr.bind fun _ clear => .pure (allClear_one clear)
  · exact .throw
  · exact caseSearched_clears f clears
  · exact caseSimple_clears f _ clears
  · exact .throw
  · exact namedFunc_clears f _ clears fun named => copy (by rw [named])

theorem cond_clears (type : CondType) (clears : ∀ arg ∈ args, arg.Clears assigned) :
    Keeps (Assigned assigned) (cond type args) (AllClear assigned args) := by
  have connective : Keeps (Assigned assigned) type.connective True := by
    cases type with
    | and | or => exact .pure trivial
    | other => exact .throw
  exact connective.bind fun _ _ => .ite (fun _ => .throw) fun _ =>
    (conditions_clears clears).bind fun _ all => .pure all

theorem sum_clears (f : SumFunc) (overWindow : Bool) (clears : ∀ arg ∈ args, arg.Clears assigned)
    (constants : ∀ arg ∈ args, arg.item.basicConstItem = true → arg.item.reads = []) :
    Keeps (Assigned assigned) (sum f args overWindow) (AllClear assigned args) := by
  have one {x : Child} (clears : ∀ arg ∈ [x], arg.Clears assigned) (aggregate : Aggregate) (distinct : Bool) :
      Keeps (Assigned assigned) (do return Sql.aggregate aggregate distinct (← x.expr)) (AllClear assigned [x]) :=
    (clears x (by simp)).expr.bind fun _ clear => .pure (allClear_one clear)
  refine .read fun _ _ => ?_
  split
  · refine .ite (fun constant => .pure (allClear_one ?_)) fun _ => one clears _ _
    simp only [Bool.and_eq_true] at constant
    exact clear_of_reads (constants _ (by simp) constant.1)
  · exact .throw
  · exact .ite (fun _ => .throw) fun _ => one clears _ _
  · exact .throw
  · exact .ite (fun _ => .throw) fun _ => one clears _ _
  · exact .throw
  · exact .ite (fun _ => .throw) fun _ => .ite (fun _ => .throw) fun _ => one clears _ _
  · exact .throw
  · exact .ite (fun _ => .throw) fun _ => one clears _ _
  · exact .throw
  · exact .ite (fun _ => .throw) fun _ => one clears _ _
  · exact .ite (fun _ => .throw) fun _ => one clears _ _
  · exact .throw
  · exact .throw
  · exact .throw

theorem orderList_clears (directions : Bool) {keys : List OrderChild}
    (clears : ∀ key ∈ keys, key.child.Clears assigned) :
    Keeps (Assigned assigned) (orderList directions keys)
      (∀ key ∈ keys, Clear (Unassigned assigned) key.child.item) := by
  induction keys with
  | nil => exact .pure fun key member => by cases member
  | cons key keys ih =>
      obtain ⟨first, rest⟩ := List.forall_mem_cons.mp clears
      exact .read fun _ _ => .ite (fun _ => .throw) fun _ => first.expr.bind fun _ clear =>
        (ih rest).bind fun _ others => .pure (List.forall_mem_cons.mpr ⟨clear, others⟩)

theorem windowFunction_clears (f : SumFunc) (frame : Option Frame) (clears : ∀ arg ∈ args, arg.Clears assigned)
    (constants : ∀ arg ∈ args, arg.item.basicConstItem = true → arg.item.reads = [])
    (rank : f = .rowNumber ∨ f = .rank ∨ f = .denseRank → args = []) :
    Keeps (Assigned assigned) (windowFunction f args frame) (AllClear assigned args) := by
  have none (empty : args = []) : AllClear assigned args := by
    subst empty
    exact fun arg member => by cases member
  unfold windowFunction
  split
  · exact .pure (none (rank (.inl rfl)))
  · exact .pure (none (rank (.inr (.inl rfl))))
  · exact .pure (none (rank (.inr (.inr rfl))))
  · exact .ite (fun _ => .throw) fun _ => (argsCsv_clears clears).bind fun _ all => .pure all
  · exact .ite (fun _ => .throw) fun _ => (argsCsv_clears clears).bind fun _ all => .pure all
  · exact .ite (fun _ => .throw) fun _ => (sum_clears f true clears constants).bind fun _ all => .pure all

theorem window_clears (f : SumFunc) {partition order : List OrderChild} (frame : Option Frame)
    (clears : ∀ arg ∈ args, arg.Clears assigned)
    (constants : ∀ arg ∈ args, arg.item.basicConstItem = true → arg.item.reads = [])
    (rank : f = .rowNumber ∨ f = .rank ∨ f = .denseRank → args = [])
    (partitionClears : ∀ key ∈ partition, key.child.Clears assigned)
    (orderClears : ∀ key ∈ order, key.child.Clears assigned) :
    Keeps (Assigned assigned) (window f args partition order frame)
      (AllClear assigned args ∧ (∀ key ∈ partition, Clear (Unassigned assigned) key.child.item) ∧
        ∀ key ∈ order, Clear (Unassigned assigned) key.child.item) := by
  refine (windowFunction_clears f frame clears constants rank).bind fun function all =>
    (orderList_clears false partitionClears).bind fun _ first =>
      (orderList_clears true orderClears).bind fun _ second => ?_
  split
  · exact .ite (fun _ => .throw) fun _ => Keeps.bind (frameBound_any _) fun _ _ =>
      Keeps.bind (frameBound_any _) fun _ _ => .pure ⟨all, first, second⟩
  · exact .pure ⟨all, first, second⟩

theorem field_clears (attrs : Attrs) (f : Option Field) :
    Keeps (Assigned assigned) (field f) (Clear (Unassigned assigned) (.field attrs f)) := by
  cases f with
  | none => exact .throw
  | some f =>
      refine .read fun g started => .ite (fun _ => .throw) fun free => ?_
      have unassigned : Unassigned assigned f := by
        rw [started.1] at free
        simpa [Unassigned] using free
      split
      · exact .throw
      · refine .pure fun leaf member => ?_
        rw [List.mem_singleton.mp member]
        exact .field unassigned

theorem reference_clears (attrs : Attrs) (type : RefType) (id : ItemId) {target : Option Item} {child : Option Child}
    (same : child.map Child.item = target) (clears : ∀ it ∈ child, it.Clears assigned) :
    Keeps (Assigned assigned) (reference type id child) (Clear (Unassigned assigned) (.ref attrs type id target)) := by
  refine .ite (fun _ => .throw) fun _ => ?_
  cases child with
  | none => exact .throw
  | some it =>
      subst same
      refine .read fun g started => ?_
      rw [started.2]
      exact ((clears it rfl).expr).imp clear_ref

end Parts

section Walk

variable {assigned : List Field}

theorem orderChildren_items (keys : List Order) :
    (orderChildren keys).map (fun key => Order.mk key.child.item key.descending) = keys := by
  induction keys with
  | nil => rfl
  | cons key keys ih =>
      obtain ⟨it, descending⟩ := key
      rw [orderChildren, List.map_cons, ih]

theorem forall_items {items : List Item} (all : AllClear assigned (children items)) :
    ∀ it ∈ items, Clear (Unassigned assigned) it := by
  intro it member
  rw [← children_items items] at member
  obtain ⟨child, childIn, rfl⟩ := List.mem_map.mp member
  exact all child childIn

theorem not_subselect {it : Item} (simple : it.Simple) :
    ∀ attrs type left unit, it ≠ .subselect attrs type left unit := by
  rintro attrs type left unit rfl
  exact simple

theorem clear_of_children {it : Item} {items : List Item} (same : it.reads = itemsReads items)
    (all : AllClear assigned (children items)) : Clear (Unassigned assigned) it :=
  clear_of_items same (forall_items all)

theorem orders_clear {keys : List Order}
    (all : ∀ key ∈ orderChildren keys, Clear (Unassigned assigned) key.child.item) :
    ∀ leaf ∈ ordersReads keys, Reaches (Unassigned assigned) leaf := by
  intro leaf member
  obtain ⟨it, descending, keyIn, read⟩ := mem_ordersReads.mp member
  rw [← orderChildren_items keys] at keyIn
  obtain ⟨key, childIn, same⟩ := List.mem_map.mp keyIn
  obtain ⟨rfl, -⟩ := Order.mk.inj same
  exact all key childIn leaf read

/-- A property of a list's items is one of their children's. -/
theorem forall_children {p : Item → Prop} {items : List Item} (all : ∀ it ∈ items, p it) :
    ∀ child ∈ children items, p child.item := by
  intro child member
  have among := List.mem_map_of_mem member (f := Child.item)
  rw [children_items] at among
  exact all _ among

theorem copy_of_simple {args : List Item} (copy : ∀ x y z, args = [x, y, z] → z = x) :
    ∀ x y z, children args = [x, y, z] → z.item = x.item := by
  intro x y z same
  have items := children_items args
  rw [same] at items
  exact copy _ _ _ items.symm

theorem rank_of_simple {f : SumFunc} {args : List Item}
    (rank : f = .rowNumber ∨ f = .rank ∨ f = .denseRank → args = []) :
    f = .rowNumber ∨ f = .rank ∨ f = .denseRank → children args = [] := by
  intro isRank
  rw [rank isRank]
  rfl

mutual

theorem node_clears : (it : Item) → it.Simple → Keeps (Assigned assigned) (node it) (Clear (Unassigned assigned) it)
  | .field attrs f, _ => field_clears attrs f
  | .ref attrs type id target, simple =>
      reference_clears attrs type id (optional_item target) (optional_clears target simple)
  | .const attrs value, _ => literal_clears (.const attrs value)
  | .null attrs, _ => literal_clears (.null attrs)
  | .param _, _ => .throw
  | .func attrs variant type args, simple =>
      (func_clears (.func attrs variant type args) variant type (children_clears args simple.1)
        fun named => copy_of_simple (simple.2 named)).imp (clear_of_children rfl)
  | .cond _ type args, simple => (cond_clears type (children_clears args simple)).imp (clear_of_children rfl)
  | .sum _ f args, simple =>
      (sum_clears f false (children_clears args simple.1) (forall_children simple.2)).imp (clear_of_children rfl)
  | .window _ f args partition order frame, simple =>
      (window_clears f frame (children_clears args simple.1) (forall_children simple.2.1)
        (rank_of_simple simple.2.2.1) (orders_clears partition simple.2.2.2.1)
        (orders_clears order simple.2.2.2.2)).imp fun ⟨all, first, second⟩ leaf member => by
          simp only [Item.reads, List.mem_append] at member
          rcases member with (inArgs | inPartition) | inOrder
          · obtain ⟨arg, argIn, read⟩ := mem_itemsReads.mp inArgs
            exact forall_items all arg argIn leaf read
          · exact orders_clear first leaf inPartition
          · exact orders_clear second leaf inOrder
  | .subselect _ _ _ _, simple => simple.elim
  | .other _, _ => .throw

theorem optional_clears : (it : Option Item) → optionSimple it → ∀ child ∈ optional it, child.Clears assigned
  | none, _ => fun child member => by cases member
  | some it, simple => fun child member => by
      cases member
      exact ⟨node_clears it simple, not_subselect simple⟩

theorem children_clears : (items : List Item) → itemsSimple items → ∀ child ∈ children items, child.Clears assigned
  | [], _ => fun child member => by cases member
  | it :: items, simple =>
      List.forall_mem_cons.mpr ⟨⟨node_clears it simple.1, not_subselect simple.1⟩, children_clears items simple.2⟩

theorem orders_clears : (keys : List Order) → ordersSimple keys →
    ∀ key ∈ orderChildren keys, key.child.Clears assigned
  | [], _ => fun key member => by cases member
  | .mk it _ :: keys, simple =>
      List.forall_mem_cons.mpr ⟨⟨node_clears it simple.1, not_subselect simple.1⟩, orders_clears keys simple.2⟩

end

theorem expr_clears {it : Item} (simple : it.Simple) :
    Keeps (Assigned assigned) (expr it) (Clear (Unassigned assigned) it) :=
  Child.Clears.expr ⟨node_clears it simple, not_subselect simple⟩

end Walk

section SetList

variable {assigned : List Field} {context : ModifyContext} {fl : Field} {v : Item}

theorem strCheck_keeps : Keeps (Assigned assigned) (strCheck fl v) True := by
  unfold strCheck
  refine .ite (fun _ => .throw) fun _ => .ite (fun _ => .throw) fun _ => ?_
  split
  · exact .ite (fun _ => .throw) fun _ => .pure trivial
  · exact .throw
  · exact .ite (fun _ => .throw) fun _ => .ite (fun _ => .throw) fun _ => .pure trivial

theorem intCheck_keeps : Keeps (Assigned assigned) (intCheck fl v) True := by
  unfold intCheck
  refine .ite (fun _ => .throw) fun _ => ?_
  split
  · exact .pure trivial
  · exact .ite (fun _ => .throw) fun _ => .pure trivial
  · exact .pure trivial

theorem temporalCheck_keeps : Keeps (Assigned assigned) (temporalCheck fl v) True := by
  unfold temporalCheck
  split
  · exact .ite (fun _ => .throw) fun _ => .pure trivial
  · exact .throw

theorem valueCheck_keeps (target : Cls) : Keeps (Assigned assigned) (valueCheck context fl v target) True := by
  cases target with
  | int => exact intCheck_keeps
  | real => exact .ite (fun _ => .throw) fun _ => .ite (fun _ => .throw) fun _ => .pure trivial
  | str => exact strCheck_keeps
  | datetime | time | tstamp | unsafe_ => exact temporalCheck_keeps

theorem guarded_keeps (error : GuardError) : Keeps (Assigned assigned) (guarded context fl error) True :=
  .ite (fun _ => .throw) fun _ => .read fun _ _ => .ite (fun _ => .throw) fun _ => .change fun _ start => start

/-- An accepted value reads no column assigned before it. -/
theorem assignment_clears (target : Item) (simple : v.Simple) :
    Keeps (Assigned assigned) (assignment context target fl v) (Clear (Unassigned assigned) v) := by
  unfold assignment
  split
  · exact .throw
  · exact .ite (fun _ => .throw) fun _ => .pure fun leaf member => by cases member
  · refine .ite (fun _ => .throw) fun _ => .ite (fun _ => .throw) fun _ => ?_
    refine (valueCheck_keeps (cls target)).bind fun check _ => ?_
    cases check with
    | none | plusZero => exact (expr_clears simple).bind fun _ clear => .pure clear
    | range least most | length most =>
        exact (guarded_keeps _).bind fun _ _ => (expr_clears simple).bind fun _ clear => .pure clear

/-- The SET list as pairs, in its order. -/
def setPairs : List Item → List Item → List (Field × Item)
  | .field _ (some fl) :: targets, v :: values => (fl, v) :: setPairs targets values
  | _, _ => []

/-- Every value reads only columns that the list has not assigned by then. -/
def InOrder (table : TableId) : List Field → List (Field × Item) → Prop
  | _, [] => True
  | assigned, (fl, v) :: rest =>
      fl.table = table ∧ Clear (Unassigned assigned) v ∧ InOrder table (fl :: assigned) rest

theorem setList_inOrder {table : TableId} {name : String} {targets values : List Item}
    (simple : ∀ v ∈ values, v.Simple) {g after : Gen} {sets : List (String × Sql)} {changes : List Sql}
    (start : Assigned assigned g) (ran : setList context table name targets values g = .ok ((sets, changes), after)) :
    InOrder table assigned (setPairs targets values) ∧ (setPairs targets values).length = targets.length := by
  induction targets generalizing values g after assigned sets changes with
  | nil => exact ⟨trivial, rfl⟩
  | cons target targets ih =>
      cases values with
      | nil => exact (throw_ok.mp ran).elim
      | cons v values =>
          obtain ⟨first, rest⟩ := List.forall_mem_cons.mp simple
          unfold setList at ran
          cases target with
          | field attrs f =>
              cases f with
              | none => exact (throw_ok.mp ran).elim
              | some fl =>
                  simp only at ran
                  split at ran
                  · exact (throw_ok.mp ran).elim
                  · rename_i same
                    obtain ⟨⟨value, stored⟩, middle, assignedRan, ran⟩ := bind_ok.mp ran
                    obtain ⟨_, noted, note, ran⟩ := bind_ok.mp ran
                    obtain ⟨⟨sets, changes⟩, last, restRan, ran⟩ := bind_ok.mp ran
                    obtain ⟨kept, clear⟩ := assignment_clears (.field attrs (some fl)) first g _ _ start assignedRan
                    have next : Assigned (fl :: assigned) noted := by
                      rw [← modify_ok.mp note]
                      exact ⟨by rw [kept.1], kept.2⟩
                    obtain ⟨inOrder, length⟩ := ih rest next restRan
                    refine ⟨⟨by simpa using same, clear, inOrder⟩, ?_⟩
                    rw [setPairs, List.length_cons, length, List.length_cons]
          | _ => exact (throw_ok.mp ran).elim

/-- The SET list of an accepted UPDATE starts with nothing assigned. -/
theorem modifyStatement_setList {sel : ModifySelect} {filter : Option Item} {g after : Gen} {name : String}
    {sets : List (String × Sql)} {where_ : Option Sql} {count : Option ModifyCount}
    (ran : modifyStatement context sel filter g = .ok ((.update name sets where_, count), after)) :
    ∃ id tableName on outer semiJoin, sel.tables = [.mk (.base id tableName) on outer semiJoin] ∧
      ∃ start last sets changes, start.assigned = g.assigned ∧ start.viewCols = g.viewCols ∧
        setList context id (quoteIdent tableName) sel.targets sel.values start = .ok ((sets, changes), last) := by
  unfold modifyStatement at ran
  cases tables : sel.tables with
  | nil =>
      rw [tables] at ran
      exact (throw_ok.mp ran).elim
  | cons first rest =>
      obtain ⟨kind, on, outer, semiJoin⟩ := first
      cases kind with
      | base id tableName =>
          cases rest with
          | cons =>
              rw [tables] at ran
              exact (throw_ok.mp ran).elim
          | nil =>
              rw [tables] at ran
              obtain ⟨_, named, naming, ran⟩ := bind_ok.mp ran
              have same := modify_ok.mp naming
              simp only at ran
              split at ran
              · split at ran
                · exact (throw_ok.mp ran).elim
                · split at ran
                  · exact (throw_ok.mp ran).elim
                  · obtain ⟨⟨sets, changes⟩, assigned, setRan, ran⟩ := bind_ok.mp ran
                    exact ⟨id, tableName, on, outer, semiJoin, rfl, named, assigned, sets, changes, by rw [← same],
                      by rw [← same], setRan⟩
              · obtain ⟨written, last, conditionRan, ran⟩ := bind_ok.mp ran
                obtain ⟨same, -⟩ := pure_ok.mp ran
                cases same
      | _ =>
          rw [tables] at ran
          exact (throw_ok.mp ran).elim

end SetList

/-- Where a value of the SET list is evaluated: the fields of the table have a
row's values. -/
def rowScope (table : TableId) (outer : Field → Value) (row : TableRow) : Scope where
  field f := if f.table = table then row f.name else outer f
  column _ := none

section Orders

variable (meaning : Meaning) (table : TableId) (outer : Field → Value) (store : Field → Value → Value)

/-- Every value is that of the old row, and they are stored in the order of
the list. -/
def setAtOnce (row : TableRow) (sets : List (Field × Item)) : TableRow :=
  storeAll row (sets.map fun set => (set.1.name, store set.1 (meaning.value (rowScope table outer row) set.2)))

/-- Every value sees the columns assigned before it. -/
def setInTurn (row : TableRow) : List (Field × Item) → TableRow
  | [] => row
  | (fl, v) :: rest =>
      setInTurn (Function.update row fl.name (store fl (meaning.value (rowScope table outer row) v))) rest

variable {meaning table outer store}

/-- What an item reads decides its value. -/
theorem value_of_clear {may : Field → Prop} {it : Item} (clear : Clear may it) {row other : TableRow}
    (same : ∀ f, may f → f.table = table → row f.name = other f.name) :
    meaning.value (rowScope table outer row) it = meaning.value (rowScope table outer other) it := by
  have leaves {leaf : Item} (reached : Reaches may leaf) :
      meaning.value (rowScope table outer row) leaf = meaning.value (rowScope table outer other) leaf := by
    induction reached with
    | field allowed =>
        rename_i attrs f
        rw [meaning.field, meaning.field]
        simp only [rowScope]
        split
        · exact same f allowed ‹_›
        · rfl
    | through _ ih =>
        rw [meaning.viewRef, meaning.viewRef]
        exact meaning.determined _ _ _ ih
  exact meaning.determined _ _ it fun leaf member => leaves (clear leaf member)

/-- Sequential assignment from a row that differs from the old one in assigned
columns only. -/
theorem setInTurn_eq {assigned : List Field} {sets : List (Field × Item)} (inOrder : InOrder table assigned sets)
    {old now : TableRow} (same : ∀ f, Unassigned assigned f → f.table = table → now f.name = old f.name) :
    setInTurn meaning table outer store now sets =
      storeAll now (sets.map fun set => (set.1.name, store set.1 (meaning.value (rowScope table outer old) set.2))) := by
  induction sets generalizing assigned now with
  | nil => rfl
  | cons set rest ih =>
      obtain ⟨fl, v⟩ := set
      obtain ⟨inTable, clear, restInOrder⟩ := inOrder
      rw [setInTurn, List.map_cons, storeAll, value_of_clear clear same]
      refine ih restInOrder fun f unassigned isTable => ?_
      obtain ⟨first, others⟩ := List.forall_mem_cons.mp unassigned
      have differ : f.name ≠ fl.name := by
        rintro named
        simp [Field.same, inTable, isTable, named] at first
      rw [Function.update_of_ne differ]
      exact same f others isTable

end Orders

/-- Evaluating an accepted SET list on the old row, as stoolap does, stores
what MariaDB's assignment from left to right does. -/
theorem set_at_once_eq_in_turn {trustBin : Bool} {context : ModifyContext} {sel : ModifySelect} {filter : Option Item}
    {name : String} {sets : List (String × Sql)} {where_ : Option Sql} {count : Option ModifyCount}
    {guard : Option ModifyGuard}
    (accepted : genModify trustBin context sel filter = .ok (.update name sets where_, count, guard))
    (simple : ∀ v ∈ sel.values, v.Simple) :
    ∃ id tableName on outerJoin semiJoin, sel.tables = [.mk (.base id tableName) on outerJoin semiJoin] ∧
      (setPairs sel.targets sel.values).length = sel.targets.length ∧
      ∀ (meaning : Meaning) (outer : Field → Value) (store : Field → Value → Value) (row : TableRow),
        setAtOnce meaning id outer store row (setPairs sel.targets sel.values) =
          setInTurn meaning id outer store row (setPairs sel.targets sel.values) := by
  obtain ⟨⟨⟨statement, rows⟩, after⟩, ran, same⟩ := ExceptList.bind_ok.mp accepted
  cases same
  obtain ⟨id, tableName, on, outerJoin, semiJoin, tables, start, last, sets, changes, nothing, noViews, setRan⟩ :=
    modifyStatement_setList ran
  have fresh : Assigned [] start := ⟨nothing, noViews⟩
  obtain ⟨inOrder, length⟩ := setList_inOrder simple fresh setRan
  exact ⟨id, tableName, on, outerJoin, semiJoin, tables, length, fun meaning outer store row =>
    (setInTurn_eq inOrder fun _ _ _ => rfl).symm⟩

/-- `SET b = a, a = 5`. -/
def shiftUpdate : ModifySelect where
  tables := [.mk (.base 0 "t") none false false]
  targets := [intColumn "b", intColumn "a"]
  values := [intColumn "a", .const (intAttrs false) (.int 5)]
  checkConstraints := false
  updateDefaults := false
  primaryKey := none

theorem set_at_once_eq_in_turn_shift :
    (genModify false strictContext shiftUpdate none).isOk = true ∧
      setAtOnce sampleMeaning 0 (fun _ => none) (fun _ value => value) (sampleRow [("a", 1), ("b", 2)])
          (setPairs shiftUpdate.targets shiftUpdate.values) =
        setInTurn sampleMeaning 0 (fun _ => none) (fun _ value => value) (sampleRow [("a", 1), ("b", 2)])
          (setPairs shiftUpdate.targets shiftUpdate.values) := by
  refine ⟨rfl, ?_⟩
  have simple : ∀ v ∈ shiftUpdate.values, v.Simple := by
    intro v member
    simp only [shiftUpdate, List.mem_cons, List.not_mem_nil, or_false] at member
    rcases member with rfl | rfl <;> exact trivial
  obtain ⟨id, tableName, on, outerJoin, semiJoin, tables, -, same⟩ :=
    @set_at_once_eq_in_turn false strictContext shiftUpdate none _ _ _ _ _ rfl simple
  cases tables
  exact same sampleMeaning _ _ _

end StoolapMariadb.SqlGen
