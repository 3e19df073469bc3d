import StoolapMariadb.Lib.StateExcept
import StoolapMariadb.SqlGen.Modify

namespace StoolapMariadb.SqlGen

/-! Stoolap's types of the generated SQL, as far as it matters where a boolean
may stand. -/

open StateExcept

mutual

/-- Stoolap takes the expression for a boolean. A CASE and what returns one of
its arguments have their values' type. -/
def Sql.isBoolean : Sql → Bool
  | .compare _ _ _ | .isNull _ _ | .between _ _ _ _ | .inList _ _ _ | .like _ _ _ | .not _ | .connect _ _
  | .existsQuery _ | .inQuery _ _ => true
  | .paren operand => operand.isBoolean
  | .caseSearched arms | .caseSimple _ arms => arms.isBoolean
  | .call .coalesce args | .call .ifnull args | .call .nullif args => anyBoolean args
  | .aggregate .min _ arg | .aggregate .max _ arg => arg.isBoolean
  | .windowCall _ args => anyBoolean args
  | .windowed function _ _ _ => function.isBoolean
  | .subquery query => query.isBoolean
  | _ => false

def Arms.isBoolean : Arms → Bool
  | .done => false
  | .otherwise value => value.isBoolean
  | .when _ value rest => value.isBoolean || rest.isBoolean

def anyBoolean : List Sql → Bool
  | [] => false
  | value :: values => value.isBoolean || anyBoolean values

/-- The type of a scalar subquery is that of its column. -/
def Query.isBoolean : Query → Bool
  | .select _ (some (.mk value _ :: _)) _ _ _ _ _ _ => value.isBoolean
  | .select _ _ _ _ _ _ _ _ => false
  | .legs first _ _ _ => first.isBoolean

end

/-- What is written for the item is a boolean exactly when it is a comparison
or a test, and no query of its is one. -/
structure Child.Typed (it : Child) : Prop where
  node : Returns it.node fun sql => sql.isBoolean = it.item.isPredicate
  query : Returns it.query fun query => query.isBoolean = false

section Parts

variable {it : Child} {args : List Child}

theorem isPredicate_of_field {it : Item} (isField : it.isField = true) : it.isPredicate = false := by
  cases it <;> first | rfl | cases isField

theorem isPredicate_of_not_boolType {it : Item} (other : it.isBoolType = false) : it.isPredicate = false := by
  cases it with
  | ref attrs type id target => rfl
  | _ => exact (Bool.or_eq_false_iff.mp other).1

/-- A value is never a boolean. -/
theorem Child.Typed.expr (typed : it.Typed) : Returns it.expr fun sql => sql.isBoolean = false := by
  refine .ite (fun plain => typed.node.imp fun _ same => same.trans ?_) fun _ => ?_
  · rcases Bool.or_eq_true _ _ ▸ plain with isField | other
    · exact isPredicate_of_field isField
    · exact isPredicate_of_not_boolType (by simpa using other)
  · exact .skip fun _ => .pure rfl

theorem Child.Typed.branch (typed : it.Typed) (result : Cls) :
    Returns (it.branch result) fun sql => sql.isBoolean = false :=
  .ite (fun _ => typed.expr) fun _ => .skip fun _ => .pure rfl

theorem branchArgs_typed (typed : ∀ arg ∈ args, arg.Typed) (result : Cls) :
    Returns (branchArgs result args) fun values => anyBoolean values = false := by
  induction args with
  | nil => exact .pure rfl
  | cons arg args ih =>
      obtain ⟨first, rest⟩ := List.forall_mem_cons.mp typed
      refine (first.branch result).bind fun value plain => (ih rest).bind fun values others => .pure ?_
      rw [anyBoolean, plain, others]
      rfl

theorem argsCsv_typed (typed : ∀ arg ∈ args, arg.Typed) :
    Returns (argsCsv args) fun values => anyBoolean values = false := by
  induction args with
  | nil => exact .pure rfl
  | cons arg args ih =>
      obtain ⟨first, rest⟩ := List.forall_mem_cons.mp typed
      refine first.expr.bind fun value plain => (ih rest).bind fun values others => .pure ?_
      rw [anyBoolean, plain, others]
      rfl

theorem elseArm_typed {otherwise : Option Child} (typed : ∀ value ∈ otherwise, value.Typed) (result : Cls) :
    Returns (elseArm result otherwise) fun arms => arms.isBoolean = false := by
  cases otherwise with
  | none => exact .pure rfl
  | some value => exact ((typed value rfl).branch result).bind fun sql plain => .pure plain

theorem arms_typed {test : Child → GenM Sql} {result : Cls} {otherwise : Option Child}
    {whens values : List Child} (valuesTyped : ∀ value ∈ values, value.Typed)
    (otherwiseTyped : ∀ value ∈ otherwise, value.Typed) :
    Returns (arms test result otherwise whens values) fun arms => arms.isBoolean = false := by
  induction whens generalizing values with
  | nil => exact elseArm_typed otherwiseTyped result
  | cons when whens ih =>
      cases values with
      | nil => exact elseArm_typed otherwiseTyped result
      | cons value values =>
          obtain ⟨first, rest⟩ := List.forall_mem_cons.mp valuesTyped
          refine .skip fun tested => (first.branch result).bind fun sql plain => (ih rest).bind fun arms others =>
            .pure ?_
          rw [Arms.isBoolean, plain, others]
          rfl

theorem typed_of_mem_drop {n : Nat} (typed : ∀ arg ∈ args, arg.Typed) : ∀ arg ∈ args.drop n, arg.Typed :=
  fun arg member => typed arg (List.mem_of_mem_drop member)

theorem typed_getLast {odd : Prop} [Decidable odd] (typed : ∀ arg ∈ args, arg.Typed) :
    ∀ arg ∈ (if odd then args.getLast? else none), arg.Typed := by
  intro arg member
  split at member
  · exact typed arg (List.mem_of_getLast? member)
  · cases member

theorem caseSearched_typed (f : Item) (typed : ∀ arg ∈ args, arg.Typed) :
    Returns (caseSearched f args) fun sql => sql.isBoolean = false := by
  refine .ite (fun _ => .throw) fun _ => (arms_typed (fun value member => ?_) ?_).bind fun arms plain => .pure plain
  · exact typed_of_mem_drop typed value (List.mem_of_mem_take member)
  · exact typed_getLast typed

theorem caseSimple_typed (f : Item) (collation : Option Types.Charset) {subject : Child}
    (typed : ∀ arg ∈ args, arg.Typed) :
    Returns (caseSimple f collation subject args) fun sql => sql.isBoolean = false := by
  refine .skip fun _ => .ite (fun _ => .throw) fun _ => .ite (fun _ => .throw) fun _ =>
    .skip fun _ => (arms_typed (fun value member => ?_) ?_).bind fun arms plain => .pure plain
  · exact typed_of_mem_drop typed value (List.mem_of_mem_take member)
  · exact typed_getLast typed

theorem arithmetic_typed (f : Item) (op : Arithmetic) :
    Returns (arithmetic f op args) fun sql => sql.isBoolean = false := by
  unfold arithmetic
  split
  · exact .ite (fun _ => .throw) fun _ => .skip fun _ => .skip fun _ => .pure rfl
  · exact .throw

theorem abs_typed (f : Item) : Returns (abs f args) fun sql => sql.isBoolean = false := by
  unfold abs
  split
  · exact .ite (fun _ => .throw) fun _ => .skip fun _ => .pure rfl
  · exact .throw

theorem charLength_typed : Returns (charLength args) fun sql => sql.isBoolean = false := by
  unfold charLength
  split
  · exact .ite (fun _ => .throw) fun _ => .skip fun _ => .pure rfl
  · exact .throw

theorem coalesce_typed (f : Item) {name : Function} (value : name = .coalesce ∨ name = .ifnull)
    (typed : ∀ arg ∈ args, arg.Typed) :
    Returns (coalesce f name args) fun sql => sql.isBoolean = false := by
  refine .ite (fun _ => .throw) fun _ => (branchArgs_typed typed _).bind fun values plain => .pure ?_
  rcases value with rfl | rfl <;> exact plain

theorem nullif_typed {x y : Child} (xTyped : x.Typed) (yTyped : y.Typed) :
    Returns (nullif x y) fun sql => sql.isBoolean = false := by
  refine .skip fun _ => .ite (fun _ => .throw) fun _ => (argsCsv_typed ?_).bind fun values plain => .pure plain
  simp only [List.forall_mem_cons, List.not_mem_nil, false_implies, implies_true, and_true]
  exact ⟨xTyped, yTyped⟩

theorem ifFunc_typed (f : Item) (typed : ∀ arg ∈ args, arg.Typed) :
    Returns (ifFunc f args) fun sql => sql.isBoolean = false := by
  unfold ifFunc
  split
  · rename_i test x y
    have xTyped : x.Typed := typed x (by simp)
    have yTyped : y.Typed := typed y (by simp)
    refine .ite (fun _ => .throw) fun _ => .skip fun tested =>
      (xTyped.branch _).bind fun first plain => (yTyped.branch _).bind fun second others => .pure ?_
    simp only [Sql.isBoolean, Arms.isBoolean, plain, others, Bool.or_self]
  · exact .throw

theorem namedFunc_typed (f : Item) (name : FuncName) (typed : ∀ arg ∈ args, arg.Typed) :
    Returns (namedFunc f name args) fun sql => sql.isBoolean = false := by
  cases name with
  | plus => exact arithmetic_typed f _
  | minus => exact arithmetic_typed f _
  | mul => exact arithmetic_typed f _
  | div => exact arithmetic_typed f _
  | abs => exact abs_typed f
  | coalesce => exact coalesce_typed f (.inl rfl) typed
  | ifnull => exact coalesce_typed f (.inr rfl) typed
  | nullif =>
      unfold namedFunc
      dsimp only
      split
      · exact nullif_typed (typed _ (by simp)) (typed _ (by simp))
      · exact nullif_typed (typed _ (by simp)) (typed _ (by simp))
      · exact .throw
  | ifFunc => exact ifFunc_typed f typed
  | charLength => exact charLength_typed
  | concat => exact .ite (fun _ => .skip fun _ => .pure rfl) fun _ => .throw
  | other => exact .throw

theorem constant_typed (attrs : Attrs) (value : Literal) :
    Returns (constant attrs value) fun sql => sql.isBoolean = false := by
  cases value with
  | int value => exact .ite (fun _ => .throw) fun _ => .pure rfl
  | real finite digits => exact .ite (fun _ => .throw) fun _ => .pure rfl
  | decimal digits => exact .ite (fun _ => .throw) fun _ => .pure rfl
  | string bytes datetime time => exact .ite (fun _ => .throw) fun _ => .pure rfl
  | temporal isTime packed zeroPart => exact .throw

theorem field_typed (f : Option Field) : Returns (field f) fun sql => sql.isBoolean = false := by
  cases f with
  | none => exact .throw
  | some f =>
      refine .skip fun g => .ite (fun _ => .throw) fun _ => ?_
      split
      · exact .throw
      · exact .pure rfl

theorem reference_typed (type : RefType) (id : ItemId) {target : Option Child}
    (typed : ∀ it ∈ target, it.Typed) : Returns (reference type id target) fun sql => sql.isBoolean = false := by
  refine .ite (fun _ => .throw) fun _ => ?_
  cases target with
  | none => exact .throw
  | some it =>
      refine .skip fun g => ?_
      split
      · exact .pure rfl
      · exact (typed it rfl).expr

/-- What a comparison or a test writes in parentheses. -/
theorem inSubquery_typed (left : Option Child) (unit : SelectUnit) (query : GenM Query) :
    Returns (inSubquery left unit query) fun sql => sql.isBoolean = true := by
  cases left with
  | none => exact .throw
  | some left =>
      exact .ite (fun _ => .throw) fun _ => .ite (fun _ => .throw) fun _ =>
        .skip fun _ => .skip fun _ => .skip fun _ => .skip fun _ => .pure rfl

theorem existsSubquery_typed (query : GenM Query) :
    Returns (existsSubquery query) fun sql => sql.isBoolean = true :=
  .skip fun _ => .skip fun _ => .pure rfl

theorem inOptimizer_typed : Returns (inOptimizer args) fun sql => sql.isBoolean = true := by
  unfold inOptimizer
  split
  · split
    · rename_i type _ unit _
      cases type with
      | existsSubs => exact existsSubquery_typed _
      | inSubs => exact inSubquery_typed _ unit _
      | singlerowSubs => exact .throw
      | other => exact .throw
    · exact .throw
  · exact .throw

theorem compare_typed (op : Comparison) (handler : HandlerType) (collation : Option Types.Charset) (x y : Child) :
    Returns (compare op handler collation x y) fun sql => sql.isBoolean = true := by
  unfold compare
  split
  · exact .skip fun _ => .pure rfl
  · exact .skip fun _ => .pure rfl
  · exact .skip fun _ => .ite (fun _ => .skip fun _ => .skip fun _ => .pure rfl) fun _ => .throw

theorem between_typed (negated : Bool) (collation : Option Types.Charset) (x low high : Child) :
    Returns (between negated collation x low high) fun sql => sql.isBoolean = true := by
  unfold between
  split
  · exact .skip fun _ => .pure rfl
  · exact .skip fun _ => .ite (fun _ => .skip fun _ => .skip fun _ => .skip fun _ => .pure rfl) fun _ => .throw

theorem inValues_typed (negated : Bool) (collation : Option Types.Charset) (x : Child) (list : List Child) :
    Returns (inValues negated collation x list) fun sql => sql.isBoolean = true :=
  .skip fun _ => .ite (fun _ => .throw) fun _ =>
    .ite (fun _ => .skip fun _ => .skip fun _ => .pure rfl) fun _ => .throw

theorem like_typed (negated : Bool) (collation : Option Types.Charset) (escape : Char) (x pattern : Child) :
    Returns (like negated collation escape x pattern) fun sql => sql.isBoolean = true :=
  .skip fun _ => .ite (fun _ => .throw) fun _ => .ite (fun _ => .throw) fun _ =>
    .skip fun _ => .skip fun _ => .pure rfl

theorem func_typed (attrs : Attrs) (variant : Bool) (type : FuncType) (items : List Item)
    (typed : ∀ arg ∈ args, arg.Typed) :
    let f := Item.func attrs variant type items
    Returns (func f variant type args) fun sql => sql.isBoolean = f.isPredicate := by
  intro f
  refine .ite (fun _ => .throw) fun _ => ?_
  split
  · exact compare_typed _ _ _ _ _
  · exact .throw
  · exact .throw
  · exact .skip fun _ => .pure rfl
  · exact .throw
  · exact .skip fun _ => .pure rfl
  · exact .throw
  · exact between_typed _ _ _ _ _
  · exact .throw
  · exact inValues_typed _ _ _ _
  · exact .throw
  · exact like_typed _ _ _ _ _
  · exact .throw
  · exact inOptimizer_typed
  · exact .ite (fun _ => .throw) fun _ => .skip fun _ => .pure rfl
  · exact .throw
  · exact caseSearched_typed f typed
  · exact caseSimple_typed f _ fun arg member => typed arg (List.mem_cons_of_mem _ member)
  · exact .throw
  · exact namedFunc_typed f _ typed

theorem cond_typed (type : CondType) : Returns (cond type args) fun sql => sql.isBoolean = true :=
  .skip fun _ => .ite (fun _ => .throw) fun _ => .skip fun _ => .pure rfl

theorem subselect_typed (type : SubsType) (left : Option Child) (unit : SelectUnit) {query : GenM Query}
    (queryTyped : Returns query fun query => query.isBoolean = false) (attrs : Attrs) (leftItem : Option Item) :
    Returns (subselect type left unit query) fun sql =>
      sql.isBoolean = (Item.subselect attrs type leftItem unit).isPredicate := by
  cases type with
  | singlerowSubs => exact queryTyped.bind fun query plain => .pure plain
  | existsSubs => exact existsSubquery_typed query
  | inSubs => exact inSubquery_typed left unit query
  | other => exact .throw

theorem sum_typed (f : SumFunc) (overWindow : Bool) (typed : ∀ arg ∈ args, arg.Typed) :
    Returns (sum f args overWindow) fun sql => sql.isBoolean = false := by
  refine .skip fun trustBin => ?_
  split
  · exact .ite (fun _ => .pure rfl) fun _ => .skip fun _ => .pure rfl
  · exact .throw
  · exact .ite (fun _ => .throw) fun _ => .skip fun _ => .pure rfl
  · exact .throw
  · exact .ite (fun _ => .throw) fun _ => .skip fun _ => .pure rfl
  · exact .throw
  · exact .ite (fun _ => .throw) fun _ => .ite (fun _ => .throw) fun _ => .skip fun _ => .pure rfl
  · exact .throw
  · exact .ite (fun _ => .throw) fun _ => .skip fun _ => .pure rfl
  · exact .throw
  · exact .ite (fun _ => .throw) fun _ => (typed _ (by simp)).expr.bind fun sql plain => .pure plain
  · exact .ite (fun _ => .throw) fun _ => (typed _ (by simp)).expr.bind fun sql plain => .pure plain
  · exact .throw
  · exact .throw
  · exact .throw

theorem windowFunction_typed (f : SumFunc) (frame : Option Frame) (typed : ∀ arg ∈ args, arg.Typed) :
    Returns (windowFunction f args frame) fun function => function.2.isBoolean = false := by
  unfold windowFunction
  split
  · exact .pure rfl
  · exact .pure rfl
  · exact .pure rfl
  · exact .ite (fun _ => .throw) fun _ => (argsCsv_typed typed).bind fun values plain => .pure plain
  · exact .ite (fun _ => .throw) fun _ => (argsCsv_typed typed).bind fun values plain => .pure plain
  · exact .ite (fun _ => .throw) fun _ => (sum_typed f true typed).bind fun sql plain => .pure plain

theorem window_typed (f : SumFunc) (partition order : List OrderChild) (frame : Option Frame)
    (typed : ∀ arg ∈ args, arg.Typed) :
    Returns (window f args partition order frame) fun sql => sql.isBoolean = false := by
  refine (windowFunction_typed f frame typed).bind fun function plain => .skip fun _ => .skip fun _ => ?_
  split
  · exact .ite (fun _ => .throw) fun _ => .skip fun _ => .skip fun _ => .pure plain
  · exact .pure plain

end Parts

section Walk

variable {items : List Child}

/-- No output column is a boolean. -/
def Plain (list : List Output) : Prop := ∀ value name, .mk value name ∈ list → value.isBoolean = false

theorem outputValue_typed {it : Child} (typed : it.Typed) (distinct : Bool) (cols : Option (List Cls)) (n : Nat) :
    Returns (outputValue distinct cols n it) fun sql => sql.isBoolean = false := by
  unfold outputValue
  split
  · exact typed.expr
  · split
    · exact .throw
    · exact .ite (fun _ => .throw) fun _ => .ite (fun _ => .throw) fun _ => typed.branch _

theorem outputs_typed (typed : ∀ it ∈ items, it.Typed) (distinct : Bool) (names : Option (List String))
    (cols : Option (List Cls)) (n : Nat) : Returns (outputs distinct names cols n items) Plain := by
  induction items generalizing n with
  | nil => exact .pure fun value name member => by cases member
  | cons it items ih =>
      obtain ⟨first, rest⟩ := List.forall_mem_cons.mp typed
      refine .skip fun g => .ite (fun _ => .throw) fun _ => .ite (fun _ => .throw) fun _ =>
        (outputValue_typed first distinct cols n).bind fun value plain => .skip fun name =>
          (ih rest (n + 1)).bind fun list others => .pure ?_
      intro other otherName member
      rcases List.mem_cons.mp member with same | member
      · cases same
        exact plain
      · exact others other otherName member

theorem selectParts_typed (top : Bool) (names : Option (List String)) (cols : Option (List Cls))
    (flags : SelectFlags) (parts : SelectChild) (typed : ∀ it ∈ parts.items, it.Typed) :
    Returns (selectParts top names cols flags parts) fun query => query.isBoolean = false := by
  have list (anyRow : Bool) : Returns (selectList anyRow names cols flags parts.items) fun list =>
      ∀ outputs ∈ list, Plain outputs :=
    .ite (fun _ => .pure fun outputs member => by cases member)
      fun _ => (outputs_typed typed flags.distinct names cols 0).map fun outputs plain other member => by
        cases member
        exact plain
  refine .ite (fun _ => .throw) fun _ => .ite (fun _ => .throw) fun _ => .skip fun g => .skip fun _ =>
    .ite (fun _ => .throw) fun _ => .ite (fun _ => .throw) fun _ => .ite (fun _ => .throw) fun _ =>
      .skip fun joined => (list _).bind fun list plain => .skip fun filters => .skip fun groupBy =>
        .skip fun having => .skip fun orderBy => .skip fun rows => .pure ?_
  match list with
  | none => rfl
  | some [] => rfl
  | some (.mk value name :: outputs) => exact plain _ rfl value name List.mem_cons_self

theorem unitParts_typed (names : Option (List String)) (recursive : Bool) (types : List Item) (fields : Nat)
    (order : List LegsOrder) (withTies : Bool) (rows : Option LimitParams) {selects : List SelectGen}
    (typed : ∀ select ∈ selects, ∀ names cols, Returns (select.write names cols) fun query => query.isBoolean = false) :
    Returns (unitParts names recursive types fields order withTies rows selects) fun query =>
      query.isBoolean = false := by
  unfold unitParts
  split
  · exact .throw
  · exact typed _ (by simp) names none
  · rename_i first legs _
    refine .ite (fun _ => .throw) fun _ => .skip fun _ => .skip fun cols => ?_
    have head : Returns (legQuery names cols first) fun query => query.isBoolean = false :=
      .ite (fun _ => .throw) fun _ => .ite (fun _ => .throw) fun _ => typed first (by simp) names (some cols)
    exact head.bind fun query plain => .skip fun rest => .ite (fun _ => .throw) fun _ =>
      .skip fun keys => .skip fun rows => .pure plain

mutual

theorem node_typed : (it : Item) → Returns (node it) fun sql => sql.isBoolean = it.isPredicate
  | .field _ f => field_typed f
  | .ref _ type id target => reference_typed type id (optional_typed target)
  | .const attrs value => constant_typed attrs value
  | .null _ => .pure rfl
  | .param _ => .throw
  | .func attrs variant type args => func_typed attrs variant type args (children_typed args)
  | .cond _ type _ => cond_typed type
  | .sum _ f args => sum_typed f false (children_typed args)
  | .window _ f args _ _ frame => window_typed f _ _ frame (children_typed args)
  | .subselect attrs type left unit => subselect_typed type (optional left) unit (unit_typed none unit) attrs left
  | .other _ => .throw

theorem query_typed : (it : Item) → Returns (query it) fun query => query.isBoolean = false
  | .subselect _ _ _ unit => unit_typed none unit
  | .field _ _ | .ref _ _ _ _ | .const _ _ | .null _ | .param _ | .func _ _ _ _ | .cond _ _ _ | .sum _ _ _
  | .window _ _ _ _ _ _ | .other _ => .throw

theorem optional_typed : (it : Option Item) → ∀ child ∈ optional it, child.Typed
  | none => fun child member => by cases member
  | some it => fun child member => by
      cases member
      exact ⟨node_typed it, query_typed it⟩

theorem children_typed : (items : List Item) → ∀ child ∈ children items, child.Typed
  | [] => fun child member => by cases member
  | it :: items => List.forall_mem_cons.mpr ⟨⟨node_typed it, query_typed it⟩, children_typed items⟩

theorem select_typed (top : Bool) (names : Option (List String)) (cols : Option (List Cls)) :
    (select : Select) → Returns (Select.write top names cols select) fun query => query.isBoolean = false
  | .mk flags _ items _ _ _ _ => selectParts_typed top names cols flags _ (children_typed items)

theorem selectGens_typed : (selects : List Select) → ∀ select ∈ selectGens selects, ∀ names cols,
    Returns (select.write names cols) fun query => query.isBoolean = false
  | [] => fun select member => by cases member
  | select :: selects => List.forall_mem_cons.mpr
      ⟨fun names cols => select_typed false names cols select, selectGens_typed selects⟩

theorem unit_typed (names : Option (List String)) :
    (unit : SelectUnit) → Returns (SelectUnit.write names unit) fun query => query.isBoolean = false
  | .mk selects recursive types fields order withTies rows =>
      unitParts_typed names recursive types fields order withTies rows (selectGens_typed selects)

end

end Walk

/-- `Gen::condition` and `Gen::expr` of an item. -/
def condition (it : Item) : GenM Sql := Child.condition { item := it, node := node it, query := query it }

def expr (it : Item) : GenM Sql := Child.expr { item := it, node := node it, query := query it }

/-- A condition is written as a boolean exactly when the item is a comparison
or a test itself; a value never is. -/
theorem condition_boolean_iff (it : Item) (g : Gen) :
    (∀ sql after, condition it g = .ok (sql, after) → (sql.isBoolean = true ↔ it.isPredicate = true)) ∧
      ∀ sql after, expr it g = .ok (sql, after) → sql.isBoolean = false := by
  have typed : Child.Typed { item := it, node := node it, query := query it } := ⟨node_typed it, query_typed it⟩
  refine ⟨?_, fun sql after ran => typed.expr g sql after ran⟩
  intro sql after ran
  have written : Returns (condition it) fun sql => sql.isBoolean = it.isPredicate :=
    .ite (fun _ => typed.node) fun _ => .throw
  rw [written g sql after ran]

/-- What `fix_fields` finds out about a signed INT column, and about TRUE. -/
def intAttrs (boolType : Bool) : Attrs where
  cmpType := .int
  unsignedFlag := false
  collation := none
  boolType
  basicConst := false
  constItem := false
  maybeNull := true
  maxLength := 11
  cols := 1

/-- A signed INT column of table 0, and an item of it. -/
def intField (name : String) : Field where
  realType := .long
  charset := none
  isTraditionalScalarType := true
  fieldIndex := 0
  table := 0
  name
  isUnsigned := false
  notNull := false
  decimals := 0
  charLength := 11
  fieldLength := 4

def intColumn (name : String) : Item := .field (intAttrs false) (some (intField name))

/-- `a = 1 OR TRUE`. -/
def orTrue : Item :=
  .cond (intAttrs true) .or
    [.func (intAttrs true) false (.compare .eq .other none)
      [intColumn "a", .const (intAttrs false) (.int 1)],
     .const (intAttrs true) (.int 1)]

/-- The state of a generator that has joined one table. -/
def oneTable : Gen where
  trustBin := false
  aliases := [(0, "t0")]
  viewCols := []
  nextAlias := 1
  assigned := []
  existsList := false
  guard := none

theorem condition_boolean_iff_sample :
    (Sql.isBoolean (.paren (.compare .eq (.column "t0" "a") (.integer 1))) = true ↔
        Item.isPredicate (.func (intAttrs true) false (.compare .eq .other none)
          [intColumn "a", .const (intAttrs false) (.int 1)]) = true) ∧
      Sql.isBoolean (.column "t0" "a") = false :=
  ⟨(condition_boolean_iff _ oneTable).1 _ _ rfl, (condition_boolean_iff (intColumn "a") oneTable).2 _ _ rfl⟩

/-- TRUE is a literal of the type BOOLEAN to MariaDB, and is written as the
integer 1 where a condition is asked for. -/
theorem true_literal_condition :
    condition (.const (intAttrs true) (.int 1)) oneTable = .ok (.integer 1, oneTable) ∧
      (Sql.integer 1).isBoolean = false ∧
      condition orTrue oneTable =
        .ok (.paren (.connect .or [.paren (.compare .eq (.column "t0" "a") (.integer 1)), .integer 1]), oneTable) :=
  ⟨rfl, rfl, rfl⟩

end StoolapMariadb.SqlGen
