import StoolapMariadb.Lib.ExceptList
import StoolapMariadb.SqlGen.Eval
import StoolapMariadb.SqlGen.IntegerItems

namespace StoolapMariadb.SqlGen

/-! What is written for an integer expression has its value in stoolap, unless a
condition that is no test is reached. -/

open Kleene (Truth)
open StateExcept

/-- The columns of the tables in reach hold the row's integers. -/
def Agrees (g : Gen) (row : Field → Option Int64) (columns : Columns) : Prop :=
  ∀ f tableAlias, g.aliases.lookup f.table = some tableAlias →
    columns tableAlias f.name = (row f).map Scalar.integer

def integerValue (v : Option Int64) : Value := v.map Scalar.integer

/-- Stoolap gives the value where no condition but tests is reached, and else
fails for the one that is not boolean. -/
def reached {α : Type} (sound : Bool) (value : α) : Except Fault α :=
  if sound then .ok value else .error .notBoolean

section Values

variable {α β : Type} {stoolap : Engine} {left right : Option Int64} {t : Truth}

theorem reached_bind {x : Except Fault α} {f : α → Except Fault β} {p q : Bool} {a : α} {b : β}
    (first : x = reached p a) (rest : f a = reached q b) : x >>= f = reached (p && q) b := by
  rw [first]
  cases p with
  | false => rfl
  | true => exact rest

/-- A step that always gives its value. -/
theorem reached_ok {x : Except Fault α} {f : α → Except Fault β} {p : Bool} {a : α} {b : β}
    (first : x = reached p a) (rest : f a = .ok b) : x >>= f = reached p b := by
  rw [← Bool.and_true p]
  exact reached_bind first rest

/-- A step that takes its value for a boolean, which it is not. -/
theorem reached_error {x : Except Fault α} {f : α → Except Fault β} {p : Bool} {a : α} {b : β}
    (first : x = reached p a) (rest : f a = .error .notBoolean) : x >>= f = reached false b := by
  rw [← Bool.and_false p]
  exact reached_bind first rest

theorem reached_map (f : α → β) (sound : Bool) (a : α) : f <$> reached sound a = reached sound (f a) := by
  cases sound <;> rfl

theorem reached_eq_ok {sound : Bool} {a : α} : reached sound a = .ok a ↔ sound = true := by
  cases sound <;> simp [reached]

@[simp] theorem toTruth_ofTruth (t : Truth) : toTruth (ofTruth t) = t := by
  rcases t with _ | _ | _ <;> rfl

/-- Comparing integers, stoolap and MariaDB agree. -/
theorem compareValues_integers (op : CompareOp) :
    stoolap.compareValues op.comparison (integerValue left) (integerValue right) = op.truth left right := by
  cases left with
  | none => cases right <;> cases op <;> simp [Engine.compareValues, integerValue, CompareOp.comparison, CompareOp.truth]
  | some left =>
      cases right with
      | none => cases op <;> simp [Engine.compareValues, integerValue, CompareOp.comparison, CompareOp.truth]
      | some right =>
          simp only [integerValue, Option.map_some, Engine.compareValues, Engine.compare]
          cases op <;> cases order : Ord.compare left right <;>
            simp [CompareOp.comparison, Comparison.holds, CompareOp.truth, CompareOp.holds] <;> grind

theorem checked_inRange {fault : Fault} {result : Int} {v : Option Int64} (fits : inRange result = .ok v) :
    checked fault result = .ok (integerValue v) := by
  unfold inRange at fits
  unfold checked
  split at fits
  · cases fits
    rename_i within
    rw [if_pos within]
    rfl
  · cases fits

/-- An integer operation that does not overflow for MariaDB does not for
stoolap. -/
theorem arithmeticValues_operate {op : Arithmetic} {f : Int → Int → Int} {v : Option Int64}
    (same : ∀ a b, stoolap.arithmeticValues op (some (.integer a)) (some (.integer b)) =
      checked (.overflow a b) (f a.toInt b.toInt))
    (ran : operate f left right = .ok v) :
    stoolap.arithmeticValues op (integerValue left) (integerValue right) = .ok (integerValue v) := by
  cases left with
  | none =>
      cases ran
      cases right <;> rfl
  | some left =>
      cases right with
      | none =>
          cases ran
          rfl
      | some right => exact (same left right).trans (checked_inRange ran)

end Values

section Posts

variable (stoolap : Engine) (columns : Columns) (row : Field → Option Int64)

/-- Written as it is: a comparison or a test gives a boolean. -/
def NodeOf (it : Item) (sql : Sql) : Prop :=
  ∀ v, it.value row = .ok v →
    sql.eval stoolap columns = reached (it.sound row) (if it.isPredicate then boolean (toTruth v) else integerValue v)

def ValueOf (it : Item) (sql : Sql) : Prop :=
  ∀ v, it.value row = .ok v → sql.eval stoolap columns = reached (it.sound row) (integerValue v)

/-- Taken as a condition. -/
def ConditionOf (it : Item) (sql : Sql) : Prop :=
  ∀ v, it.value row = .ok v →
    sql.eval stoolap columns >>= truth = reached (it.argument row).condition (toTruth v)

/-- An integer expression in the tree, with what is written for it. -/
structure Child.Translates (g : Gen) (it : Child) : Prop where
  integer : it.item.Integer
  node : Yields (· = g) it.node (NodeOf stoolap columns row it.item)

end Posts

section Items

variable {row : Field → Option Int64} {it : Item} {v : Option Int64}

/-- A test is 1, 0 or NULL. -/
theorem evaluate_ofTruth {attrs : Attrs} {variant : Bool} {type : FuncType} {items : List Item} {args : List Outcome}
    (test : (Item.func attrs variant type items).isPredicate = true) (ran : type.evaluate args = .ok v) :
    ∃ t, v = ofTruth t := by
  unfold FuncType.evaluate at ran
  split at ran
  · obtain ⟨left, -, ran⟩ := ExceptList.bind_ok.mp ran
    obtain ⟨right, -, ran⟩ := ExceptList.bind_ok.mp ran
    exact ⟨_, (ExceptList.pure_ok.mp ran).symm⟩
  · obtain ⟨value, -, ran⟩ := ExceptList.bind_ok.mp ran
    exact ⟨_, (ExceptList.pure_ok.mp ran).symm⟩
  · obtain ⟨value, -, ran⟩ := ExceptList.bind_ok.mp ran
    exact ⟨_, (ExceptList.pure_ok.mp ran).symm⟩
  · obtain ⟨value, -, ran⟩ := ExceptList.bind_ok.mp ran
    obtain ⟨low, -, ran⟩ := ExceptList.bind_ok.mp ran
    obtain ⟨high, -, ran⟩ := ExceptList.bind_ok.mp ran
    exact ⟨_, (ExceptList.pure_ok.mp ran).symm⟩
  · obtain ⟨value, -, ran⟩ := ExceptList.bind_ok.mp ran
    obtain ⟨values, -, ran⟩ := ExceptList.bind_ok.mp ran
    exact ⟨_, (ExceptList.pure_ok.mp ran).symm⟩
  · cases test
  · cases test
  · cases test
  · cases test
  · exact ⟨none, (Except.ok.inj ran).symm⟩

theorem ofTruth_of_isPredicate (integer : it.Integer) (test : it.isPredicate = true) (ran : it.value row = .ok v) :
    ofTruth (toTruth v) = v := by
  have truth : ∃ t, v = ofTruth t := by
    cases it with
    | func attrs variant type args => exact evaluate_ofTruth test ran
    | cond attrs type args =>
        simp only [Item.value, CondType.evaluate, Functor.map, Except.map] at ran
        split at ran
        · cases ran
        · exact ⟨_, (Except.ok.inj ran).symm⟩
    | subselect => exact integer.elim
    | _ => cases test
  obtain ⟨t, rfl⟩ := truth
  rw [toTruth_ofTruth]

theorem cmpCls_not_temporal (it : Item) : it.cmpCls.temporal = false := by
  unfold Item.cmpCls
  cases it.cmpType with
  | int | decimal | string =>
      dsimp only
      split <;> rfl
  | real | row | time => rfl

/-- An integer expression is no date or time. -/
theorem cls_integer (integer : it.Integer) : (cls it).temporal = false := by
  cases it with
  | field attrs f =>
      cases f with
      | none => exact integer.elim
      | some f =>
          simp only [Item.Integer, Field.isInteger] at integer
          simp only [cls, Item.realCls, Option.getD_some, Field.cls]
          split at integer <;> simp_all [Cls.temporal]
  | const | null | func | cond => exact cmpCls_not_temporal _
  | _ => exact integer.elim

theorem temporalLiteral_integer (integer : it.Integer) (other : Item) (handler : Option HandlerType) :
    temporalLiteral it other handler = none := by
  have kind := cls_integer integer
  have neither : (cls it ≠ .datetime && cls it ≠ .time) = true := by
    cases known : cls it <;> simp [known, Cls.temporal] at kind ⊢
  unfold temporalLiteral
  rw [if_pos neither]

end Items

section Parts

variable {stoolap : Engine} {columns : Columns} {row : Field → Option Int64} {g : Gen} {it : Child} {args : List Child}

/-- A value is an integer: a boolean is cast. -/
theorem Child.Translates.expr (translates : it.Translates stoolap columns row g) :
    Yields (· = g) it.expr (ValueOf stoolap columns row it.item) := by
  refine .ite (fun plain => translates.node.imp fun sql node v ran => ?_) fun other =>
    translates.node.bind fun sql node => .pure fun v ran => ?_
  · have noTest : it.item.isPredicate = false := by
      rcases Bool.or_eq_true_iff.mp plain with isField | noBool
      · exact isPredicate_of_field isField
      · exact isPredicate_of_not_boolType (by simpa using noBool)
    rw [node v ran, noTest]
    rfl
  · rw [Sql.eval]
    refine reached_ok (node v ran) ?_
    cases test : it.item.isPredicate with
    | false =>
        cases v <;> rfl
    | true =>
        have isTruth := ofTruth_of_isPredicate translates.integer test ran
        rw [← isTruth]
        rcases toTruth v with _ | _ | _ <;> rfl

theorem Child.Translates.condition (translates : it.Translates stoolap columns row g) :
    Yields (· = g) it.condition (ConditionOf stoolap columns row it.item) := by
  refine .ite (fun _ => translates.node.imp fun sql node v ran => ?_) fun _ => .throw
  have value : (it.item.argument row).value = .ok v := ran
  cases test : it.item.isPredicate with
  | true =>
      have condition : (it.item.argument row).condition = it.item.sound row := by
        simp [Item.argument, Argument.condition, test]
      rw [condition]
      refine reached_ok (node v ran) ?_
      rw [test, if_pos rfl]
      rcases toTruth v with _ | _ | _ <;> rfl
  | false =>
      have notTest : (it.item.argument row).test = false := test
      rw [Argument.condition, value, notTest, Bool.false_or]
      cases v with
      | none => exact reached_ok (node none ran) (by rw [test]; rfl)
      | some n => exact reached_error (node (some n) ran) (by rw [test]; rfl)

/-- No integer result is a DOUBLE. -/
theorem Child.Translates.branch (translates : it.Translates stoolap columns row g) {result : Cls}
    (notReal : result ≠ .real) : Yields (· = g) (it.branch result) (ValueOf stoolap columns row it.item) := by
  refine .ite (fun _ => translates.expr) fun other => ?_
  simp [notReal] at other

/-- Items written one after another. -/
theorem each_translates {all : List Child → GenM (List Sql)} {one : Child → GenM Sql} {post : Item → Sql → Prop}
    (nil : all [] = pure []) (cons : ∀ arg args, all (arg :: args) = do return (← one arg) :: (← all args))
    (each : ∀ arg ∈ args, Yields (· = g) (one arg) (post arg.item)) :
    Yields (· = g) (all args) fun sqls => List.Forall₂ post (args.map Child.item) sqls := by
  induction args with
  | nil =>
      rw [nil]
      exact .pure .nil
  | cons arg args ih =>
      obtain ⟨first, rest⟩ := List.forall_mem_cons.mp each
      rw [cons]
      exact first.bind fun _ here => (ih rest).bind fun _ others => .pure (.cons here others)

theorem argsCsv_translates (translates : ∀ arg ∈ args, arg.Translates stoolap columns row g) :
    Yields (· = g) (argsCsv args) fun sqls => List.Forall₂ (ValueOf stoolap columns row) (args.map Child.item) sqls :=
  each_translates rfl (fun _ _ => rfl) fun arg member => (translates arg member).expr

theorem conditions_translates (translates : ∀ arg ∈ args, arg.Translates stoolap columns row g) :
    Yields (· = g) (conditions args) fun sqls =>
      List.Forall₂ (ConditionOf stoolap columns row) (args.map Child.item) sqls :=
  each_translates rfl (fun _ _ => rfl) fun arg member => (translates arg member).condition

theorem branchArgs_translates {result : Cls} (notReal : result ≠ .real)
    (translates : ∀ arg ∈ args, arg.Translates stoolap columns row g) :
    Yields (· = g) (branchArgs result args) fun sqls =>
      List.Forall₂ (ValueOf stoolap columns row) (args.map Child.item) sqls :=
  each_translates rfl (fun _ _ => rfl) fun arg member => (translates arg member).branch notReal

end Parts

section Lists

variable {stoolap : Engine} {columns : Columns} {row : Field → Option Int64} {items : List Item} {sqls : List Sql}

theorem evals_reached (each : List.Forall₂ (ValueOf stoolap columns row) items sqls) {values : List (Option Int64)}
    (ran : allValues (items.map (Item.value row)) = .ok values) :
    evals stoolap columns sqls =
      reached ((items.map (Item.argument row)).all Argument.sound) (values.map integerValue) := by
  induction each generalizing values with
  | nil =>
      cases ran
      rfl
  | cons here _ ih =>
      obtain ⟨value, valueRan, ran⟩ := ExceptList.bind_ok.mp ran
      obtain ⟨others, othersRan, ran⟩ := ExceptList.bind_ok.mp ran
      cases ran
      rw [evals, List.map_cons, List.all_cons]
      exact reached_bind (here value valueRan) (reached_ok (ih othersRan) rfl)

/-- Stoolap reads a connective as MariaDB does: up to the first operand that
decides it. -/
theorem connect_reached {run : List Sql → Except Fault Truth} {value : List Outcome → Except Overflow Truth}
    {decides : Bool} {join : Truth → Truth → Truth} (runNil : run [] = .ok (some !decides))
    (runCons : ∀ sql sqls, run (sql :: sqls) = do
      let left ← truth (← sql.eval stoolap columns)
      if left = some decides then return some decides else return join left (← run sqls))
    (valueNil : value [] = .ok (some !decides))
    (valueCons : ∀ operand operands, value (operand :: operands) = do
      let left := toTruth (← operand)
      if left = some decides then return some decides else return join left (← value operands))
    (each : List.Forall₂ (ConditionOf stoolap columns row) items sqls) {t : Truth}
    (ran : value (items.map (Item.value row)) = .ok t) :
    run sqls = reached (connectSound decides (items.map (Item.argument row))) t := by
  induction each generalizing t with
  | nil =>
      rw [List.map_nil, valueNil] at ran
      cases ran
      exact runNil
  | @cons it sql items sqls here _ ih =>
      rw [List.map_cons, valueCons] at ran
      obtain ⟨value, valueRan, ran⟩ := ExceptList.bind_ok.mp ran
      rw [runCons, List.map_cons, connectSound, ← bind_assoc]
      refine reached_bind (here value valueRan) ?_
      have value' : (it.argument row).value = .ok value := valueRan
      rw [value', Outcome.isTruth]
      dsimp only at ran
      split at ran
      · rename_i isDecided
        cases ran
        simp [isDecided, reached, pure, Except.pure]
      · rename_i notDecided
        obtain ⟨rest, restRan, ran⟩ := ExceptList.bind_ok.mp ran
        cases ran
        rw [if_neg notDecided, decide_eq_false notDecided, Bool.false_or]
        exact reached_ok (ih restRan) rfl

theorem allOf_reached (each : List.Forall₂ (ConditionOf stoolap columns row) items sqls) {t : Truth}
    (ran : allTrue (items.map (Item.value row)) = .ok t) :
    allOf stoolap columns sqls = reached (connectSound false (items.map (Item.argument row))) t :=
  connect_reached rfl (fun _ _ => by rw [allOf]) rfl (fun _ _ => by rw [allTrue]) each ran

theorem anyOf_reached (each : List.Forall₂ (ConditionOf stoolap columns row) items sqls) {t : Truth}
    (ran : anyTrue (items.map (Item.value row)) = .ok t) :
    anyOf stoolap columns sqls = reached (connectSound true (items.map (Item.argument row))) t :=
  connect_reached rfl (fun _ _ => by rw [anyOf]) rfl (fun _ _ => by rw [anyTrue]) each ran

theorem firstOf_reached (each : List.Forall₂ (ValueOf stoolap columns row) items sqls) {v : Option Int64}
    (ran : firstValue (items.map (Item.value row)) = .ok v) :
    firstOf stoolap columns sqls = reached (firstSound (items.map (Item.argument row))) (integerValue v) := by
  induction each generalizing v with
  | nil =>
      cases ran
      rfl
  | @cons it sql items sqls here _ ih =>
      obtain ⟨value, valueRan, ran⟩ := ExceptList.bind_ok.mp ran
      have value' : (it.argument row).value = .ok value := valueRan
      rw [firstOf, List.map_cons, firstSound, value']
      refine reached_bind (here value valueRan) ?_
      cases value with
      | none => exact ih ran
      | some n =>
          cases ran
          rfl

/-- What is written for the ELSE, or for none. -/
def ElseOf (stoolap : Engine) (columns : Columns) (row : Field → Option Int64) (otherwise : Option Item)
    (arms : Arms) : Prop :=
  (∀ v, (otherwise.map (Item.value row)).getD (.ok none) = .ok v →
      arms.search stoolap columns = reached ((otherwise.map (Item.argument row)).all Argument.sound) (integerValue v)) ∧
    ∀ subject, arms.find stoolap columns subject = arms.search stoolap columns

/-- The WHENs of a searched CASE with the ELSE. -/
def SearchOf (stoolap : Engine) (columns : Columns) (row : Field → Option Int64) (otherwise : Option Item)
    (whens values : List Item) (arms : Arms) : Prop :=
  ∀ v, searchValue (otherwise.map (Item.value row)) (whens.map (Item.value row)) (values.map (Item.value row)) = .ok v →
    arms.search stoolap columns = reached (searchSound (otherwise.map (Item.argument row))
      (whens.map (Item.argument row)) (values.map (Item.argument row))) (integerValue v)

/-- The WHENs of a simple one. -/
def FindOf (stoolap : Engine) (columns : Columns) (row : Field → Option Int64) (otherwise : Option Item)
    (whens values : List Item) (arms : Arms) : Prop :=
  ∀ subject v, findValue subject (otherwise.map (Item.value row)) (whens.map (Item.value row))
      (values.map (Item.value row)) = .ok v →
    arms.find stoolap columns (integerValue subject) = reached (findSound (.ok subject)
      (otherwise.map (Item.argument row)) (whens.map (Item.argument row)) (values.map (Item.argument row)))
        (integerValue v)

end Lists

section Arms

variable {stoolap : Engine} {columns : Columns} {row : Field → Option Int64} {g : Gen} {result : Cls}
  {otherwise : Option Child} {whens values : List Child}

theorem elseArm_translates (notReal : result ≠ .real)
    (translates : ∀ value ∈ otherwise, value.Translates stoolap columns row g) :
    Yields (· = g) (elseArm result otherwise) (ElseOf stoolap columns row (otherwise.map Child.item)) := by
  cases otherwise with
  | none =>
      refine .pure ⟨fun v ran => ?_, fun _ => rfl⟩
      cases ran
      rfl
  | some value =>
      refine ((translates value rfl).branch notReal).bind fun sql valueOf => .pure ⟨fun v ran => ?_, fun _ => rfl⟩
      exact valueOf v ran

theorem searchArms_translates (notReal : result ≠ .real)
    (tests : ∀ when ∈ whens, when.Translates stoolap columns row g)
    (branches : ∀ value ∈ values, value.Translates stoolap columns row g)
    (last : ∀ value ∈ otherwise, value.Translates stoolap columns row g) :
    Yields (· = g) (arms Child.condition result otherwise whens values)
      (SearchOf stoolap columns row (otherwise.map Child.item) (whens.map Child.item) (values.map Child.item)) := by
  have elseOnly := elseArm_translates notReal last
  induction whens generalizing values with
  | nil => exact elseOnly.imp fun arms isElse v ran => isElse.1 v ran
  | cons when whens ih =>
      cases values with
      | nil => exact elseOnly.imp fun arms isElse v ran => isElse.1 v ran
      | cons value values =>
          obtain ⟨firstTest, restTests⟩ := List.forall_mem_cons.mp tests
          obtain ⟨firstValue, restValues⟩ := List.forall_mem_cons.mp branches
          refine firstTest.condition.bind fun test testOf => (firstValue.branch notReal).bind fun sql valueOf =>
            (ih restTests restValues).bind fun arms armsOf => .pure fun v ran => ?_
          obtain ⟨tested, testRan, ran⟩ := ExceptList.bind_ok.mp ran
          have tested' : (when.item.argument row).value = .ok tested := testRan
          rw [Arms.search, ← bind_assoc]
          simp only [List.map_cons, searchSound]
          refine reached_bind (testOf tested testRan) ?_
          rw [tested', Outcome.isTruth]
          split at ran
          · rename_i isTrue
            rw [if_pos isTrue, if_pos (by simpa using isTrue)]
            exact valueOf v ran
          · rename_i notTrue
            rw [if_neg notTrue, if_neg (by simpa using notTrue)]
            exact armsOf v ran

theorem findArms_translates (notReal : result ≠ .real)
    (tests : ∀ when ∈ whens, when.Translates stoolap columns row g)
    (branches : ∀ value ∈ values, value.Translates stoolap columns row g)
    (last : ∀ value ∈ otherwise, value.Translates stoolap columns row g) :
    Yields (· = g) (arms Child.expr result otherwise whens values)
      (FindOf stoolap columns row (otherwise.map Child.item) (whens.map Child.item) (values.map Child.item)) := by
  have elseOnly := elseArm_translates notReal last
  induction whens generalizing values with
  | nil => exact elseOnly.imp fun arms isElse subject v ran => (isElse.2 _).trans (isElse.1 v ran)
  | cons when whens ih =>
      cases values with
      | nil => exact elseOnly.imp fun arms isElse subject v ran => (isElse.2 _).trans (isElse.1 v ran)
      | cons value values =>
          obtain ⟨firstTest, restTests⟩ := List.forall_mem_cons.mp tests
          obtain ⟨firstValue, restValues⟩ := List.forall_mem_cons.mp branches
          refine firstTest.expr.bind fun test testOf => (firstValue.branch notReal).bind fun sql valueOf =>
            (ih restTests restValues).bind fun arms armsOf => .pure fun subject v ran => ?_
          obtain ⟨tested, testRan, ran⟩ := ExceptList.bind_ok.mp ran
          have tested' : (when.item.argument row).value = .ok tested := testRan
          rw [Arms.find]
          simp only [List.map_cons, findSound]
          refine reached_bind (testOf tested testRan) ?_
          have same : stoolap.compareValues .eq (integerValue subject) (integerValue tested) =
              CompareOp.eq.truth subject tested := compareValues_integers .eq
          rw [tested', Outcome.equals, same]
          split at ran
          · rename_i equal
            rw [if_pos equal, if_pos (by simpa using equal)]
            exact valueOf v ran
          · rename_i differ
            rw [if_neg differ, if_neg (by simpa using differ)]
            exact armsOf subject v ran

end Arms

section Functions

variable {stoolap : Engine} {columns : Columns} {row : Field → Option Int64} {g : Gen} {attrs : Attrs} {variant : Bool}
  {args : List Child}

theorem otherwise_map {α β : Type} (f : α → β) (args : List α) :
    (if args.length % 2 = 1 then args.getLast? else none).map f =
      if (args.map f).length % 2 = 1 then (args.map f).getLast? else none := by
  rw [List.length_map, List.getLast?_map]
  split <;> rfl

theorem middle_map {α β : Type} (f : α → β) (args : List α) :
    ((args.drop (args.length / 2)).take (args.length / 2)).map f =
      ((args.map f).drop ((args.map f).length / 2)).take ((args.map f).length / 2) := by
  rw [List.length_map, List.map_take, List.map_drop]

theorem whens_map {α β : Type} (f : α → β) (args : List α) :
    (args.take (args.length / 2)).map f = (args.map f).take ((args.map f).length / 2) := by
  rw [List.length_map, List.map_take]

theorem translates_getLast {odd : Prop} [Decidable odd] (translates : ∀ arg ∈ args, arg.Translates stoolap columns row g) :
    ∀ arg ∈ (if odd then args.getLast? else none), arg.Translates stoolap columns row g := by
  intro arg member
  split at member
  · exact translates arg (List.mem_of_getLast? member)
  · cases member

theorem translates_middle {n m : Nat} (translates : ∀ arg ∈ args, arg.Translates stoolap columns row g) :
    ∀ arg ∈ (args.drop n).take m, arg.Translates stoolap columns row g :=
  fun arg member => translates arg (List.mem_of_mem_drop (List.mem_of_mem_take member))

theorem caseSearched_translates (translates : ∀ arg ∈ args, arg.Translates stoolap columns row g)
    (notReal : cls (.func attrs variant .caseSearched (args.map Child.item)) ≠ .real) :
    Yields (· = g) (caseSearched (.func attrs variant .caseSearched (args.map Child.item)) args)
      (NodeOf stoolap columns row (.func attrs variant .caseSearched (args.map Child.item))) := by
  refine .ite (fun _ => .throw) fun _ => (searchArms_translates notReal
    (fun when member => translates when (List.mem_of_mem_take member)) (translates_middle translates)
    (translates_getLast translates)).bind fun arms armsOf => .pure fun v ran => ?_
  simp only [SearchOf, otherwise_map, middle_map, whens_map] at armsOf
  rw [Item.value, outcomes_eq] at ran
  rw [Sql.eval, Sql.eval, armsOf v ran, Item.sound, arguments_eq]
  rfl

theorem caseSimple_translates (collation : Option Types.Charset) {subject : Child}
    (first : subject.Translates stoolap columns row g)
    (translates : ∀ arg ∈ args, arg.Translates stoolap columns row g)
    (notReal : cls (.func attrs variant (.caseSimple collation) (subject.item :: args.map Child.item)) ≠ .real) :
    Yields (· = g)
      (caseSimple (.func attrs variant (.caseSimple collation) (subject.item :: args.map Child.item)) collation
        subject args)
      (NodeOf stoolap columns row
        (.func attrs variant (.caseSimple collation) (subject.item :: args.map Child.item))) := by
  refine .read fun _ _ => .ite (fun _ => .throw) fun _ => .ite (fun _ => .throw) fun _ => first.expr.bind fun _ subjectOf =>
    (findArms_translates notReal (fun when member => translates when (List.mem_of_mem_take member))
      (translates_middle translates) (translates_getLast translates)).bind fun arms armsOf => .pure fun v ran => ?_
  simp only [FindOf, otherwise_map, middle_map, whens_map] at armsOf
  rw [Item.value, outcomes, outcomes_eq] at ran
  obtain ⟨value, valueRan, ran⟩ := ExceptList.bind_ok.mp ran
  rw [Sql.eval, Sql.eval, Item.sound, arguments, arguments_eq]
  refine reached_bind (subjectOf value valueRan) ((armsOf value v ran).trans ?_)
  rw [valueRan]
  rfl

theorem compare_translates (op : CompareOp) (handler : HandlerType) (collation : Option Types.Charset) {x y : Child}
    (first : x.Translates stoolap columns row g) (second : y.Translates stoolap columns row g) :
    Yields (· = g) (compare op.comparison handler collation x y)
      (NodeOf stoolap columns row (.func attrs variant (.compare op handler collation) [x.item, y.item])) := by
  unfold compare
  rw [temporalLiteral_integer first.integer, temporalLiteral_integer second.integer]
  refine .read fun _ _ => .ite (fun _ => first.expr.bind fun _ left => second.expr.bind fun _ right =>
    .pure fun v ran => ?_) fun _ => .throw
  obtain ⟨leftValue, leftRan, ran⟩ := ExceptList.bind_ok.mp ran
  obtain ⟨rightValue, rightRan, ran⟩ := ExceptList.bind_ok.mp ran
  obtain rfl := ExceptList.pure_ok.mp ran
  rw [Sql.eval, Sql.eval]
  refine reached_bind (left leftValue leftRan) (reached_bind (right rightValue rightRan) ?_)
  rw [compareValues_integers, toTruth_ofTruth]
  rfl

theorem isNull_translates (negated : Bool) {x : Child} (first : x.Translates stoolap columns row g) :
    Yields (· = g) (do return .paren (.isNull negated (← x.expr)))
      (NodeOf stoolap columns row (.func attrs variant (.isNull negated) [x.item])) := by
  refine first.expr.bind fun _ valueOf => .pure fun v ran => ?_
  obtain ⟨value, valueRan, ran⟩ := ExceptList.bind_ok.mp ran
  obtain rfl := ExceptList.pure_ok.mp ran
  rw [Sql.eval, Sql.eval]
  refine reached_bind (valueOf value valueRan) ?_
  rw [toTruth_ofTruth]
  cases value <;> rfl

theorem not_translates {x : Child} (first : x.Translates stoolap columns row g) :
    Yields (· = g) (do return .paren (.not (← x.condition)))
      (NodeOf stoolap columns row (.func attrs variant .not [x.item])) := by
  refine first.condition.bind fun sql conditionOf => .pure fun v ran => ?_
  obtain ⟨value, valueRan, ran⟩ := ExceptList.bind_ok.mp ran
  obtain rfl := ExceptList.pure_ok.mp ran
  rw [Sql.eval, Sql.eval, ← bind_assoc]
  refine reached_ok (conditionOf value valueRan) ?_
  rw [toTruth_ofTruth]
  rfl

theorem between_translates (negated : Bool) (collation : Option Types.Charset) {x low high : Child}
    (first : x.Translates stoolap columns row g) (second : low.Translates stoolap columns row g)
    (third : high.Translates stoolap columns row g) :
    Yields (· = g) (between negated collation x low high)
      (NodeOf stoolap columns row (.func attrs variant (.between negated collation) [x.item, low.item, high.item])) := by
  unfold between
  rw [temporalLiteral_integer first.integer, temporalLiteral_integer first.integer]
  refine .read fun _ _ => .ite (fun _ => first.expr.bind fun _ valueOf => second.expr.bind fun _ lowOf =>
    third.expr.bind fun _ highOf => .pure fun v ran => ?_) fun _ => .throw
  obtain ⟨value, valueRan, ran⟩ := ExceptList.bind_ok.mp ran
  obtain ⟨lowValue, lowRan, ran⟩ := ExceptList.bind_ok.mp ran
  obtain ⟨highValue, highRan, ran⟩ := ExceptList.bind_ok.mp ran
  obtain rfl := ExceptList.pure_ok.mp ran
  rw [Sql.eval, Sql.eval]
  refine reached_bind (valueOf value valueRan) (reached_bind (lowOf lowValue lowRan)
    (reached_bind (highOf highValue highRan) ?_))
  have above : stoolap.compareValues .ge (integerValue value) (integerValue lowValue) = CompareOp.ge.truth value lowValue :=
    compareValues_integers .ge
  have below : stoolap.compareValues .le (integerValue value) (integerValue highValue) = CompareOp.le.truth value highValue :=
    compareValues_integers .le
  rw [above, below, toTruth_ofTruth]
  rfl

theorem inValues_translates (negated : Bool) (collation : Option Types.Charset) {x : Child}
    (first : x.Translates stoolap columns row g) (translates : ∀ arg ∈ args, arg.Translates stoolap columns row g) :
    Yields (· = g) (inValues negated collation x args)
      (NodeOf stoolap columns row (.func attrs variant (.inList negated collation) (x.item :: args.map Child.item))) := by
  refine .read fun _ _ => .ite (fun _ => .throw) fun _ => .ite (fun _ => first.expr.bind fun _ valueOf =>
    (argsCsv_translates translates).bind fun sqls each => .pure fun v ran => ?_) fun _ => .throw
  rw [Item.value, outcomes, outcomes_eq] at ran
  obtain ⟨value, valueRan, ran⟩ := ExceptList.bind_ok.mp ran
  obtain ⟨values, valuesRan, ran⟩ := ExceptList.bind_ok.mp ran
  obtain rfl := ExceptList.pure_ok.mp ran
  rw [Sql.eval, Sql.eval, Item.sound, arguments, arguments_eq]
  refine reached_bind (valueOf value valueRan) (reached_ok (evals_reached each valuesRan) ?_)
  have same : stoolap.compareValues .eq (integerValue value) ∘ integerValue = CompareOp.eq.truth value :=
    funext fun other => compareValues_integers .eq
  rw [List.map_map, same, toTruth_ofTruth]
  rfl

theorem neg_translates {x : Child} (first : x.Translates stoolap columns row g) :
    Yields (· = g) (do return .paren (.neg (← x.expr)))
      (NodeOf stoolap columns row (.func attrs variant .neg [x.item])) := by
  refine first.expr.bind fun _ valueOf => .pure fun v ran => ?_
  obtain ⟨value, valueRan, ran⟩ := ExceptList.bind_ok.mp ran
  rw [Sql.eval, Sql.eval]
  refine reached_bind (valueOf value valueRan) ?_
  cases value with
  | none =>
      cases ran
      rfl
  | some n => exact checked_inRange ran

/-- The arithmetic of `f`, whose name MariaDB evaluates as `op`. -/
theorem arithmetic_translates {f : Item} {sqlOp : Arithmetic} {op : Int → Int → Int} {name : FuncName} {x y : Child}
    (isName : f = .func attrs variant (.named name) [x.item, y.item])
    (evaluates : ∀ a b : Outcome, name.evaluate [a, b] = do operate op (← a) (← b))
    (sound : ∀ a b : Argument, FuncType.sound (.named name) [a, b] = (a.sound && (b.sound && true)))
    (same : ∀ a b, stoolap.arithmeticValues sqlOp (some (.integer a)) (some (.integer b)) =
      checked (.overflow a b) (op a.toInt b.toInt))
    (first : x.Translates stoolap columns row g) (second : y.Translates stoolap columns row g) :
    Yields (· = g) (arithmetic f sqlOp [x, y]) (NodeOf stoolap columns row f) := by
  refine .ite (fun _ => .throw) fun _ => first.expr.bind fun _ left => second.expr.bind fun _ right =>
    .pure fun v ran => ?_
  subst isName
  have ran : name.evaluate [x.item.value row, y.item.value row] = .ok v := ran
  rw [evaluates] at ran
  obtain ⟨leftValue, leftRan, ran⟩ := ExceptList.bind_ok.mp ran
  obtain ⟨rightValue, rightRan, ran⟩ := ExceptList.bind_ok.mp ran
  have all : (Item.func attrs variant (.named name) [x.item, y.item]).sound row =
      (x.item.sound row && (y.item.sound row && true)) := sound _ _
  rw [Sql.eval, Sql.eval, all]
  exact reached_bind (left leftValue leftRan) (reached_bind (right rightValue rightRan) (arithmeticValues_operate same ran))

theorem abs_translates {x : Child} (first : x.Translates stoolap columns row g) :
    Yields (· = g) (abs (.func attrs variant (.named .abs) [x.item]) [x])
      (NodeOf stoolap columns row (.func attrs variant (.named .abs) [x.item])) := by
  refine .ite (fun _ => .throw) fun _ => first.expr.bind fun _ valueOf => .pure fun v ran => ?_
  obtain ⟨value, valueRan, ran⟩ := ExceptList.bind_ok.mp ran
  change evals stoolap columns [_] >>= stoolap.apply .abs = _
  rw [evals, evals, bind_assoc]
  refine reached_bind (valueOf value valueRan) ?_
  cases value with
  | none =>
      cases ran
      rfl
  | some n => exact checked_inRange ran

theorem coalesce_translates {f : Item} {function : Function} {name : FuncName}
    (isName : f = .func attrs variant (.named name) (args.map Child.item))
    (isFirst : function = .coalesce ∧ name = .coalesce ∨ function = .ifnull ∧ name = .ifnull)
    (notReal : cls f ≠ .real) (translates : ∀ arg ∈ args, arg.Translates stoolap columns row g) :
    Yields (· = g) (coalesce f function args) (NodeOf stoolap columns row f) := by
  refine .ite (fun _ => .throw) fun _ => (branchArgs_translates notReal translates).bind fun sqls each =>
    .pure fun v ran => ?_
  subst isName
  rw [Item.value, outcomes_eq] at ran
  rw [Item.sound, arguments_eq]
  rcases isFirst with ⟨rfl, rfl⟩ | ⟨rfl, rfl⟩
  · rw [Sql.eval, firstOf_reached each ran]
    rfl
  · rw [Sql.eval, firstOf_reached each ran]
    rfl

theorem nullif_translates {x y : Child} {more : List Item} (first : x.Translates stoolap columns row g)
    (second : y.Translates stoolap columns row g) :
    Yields (· = g) (nullif x y)
      (NodeOf stoolap columns row (.func attrs variant (.named .nullif) (x.item :: y.item :: more))) := by
  have both : ∀ arg ∈ [x, y], arg.Translates stoolap columns row g := by
    simp only [List.forall_mem_cons, List.not_mem_nil, false_implies, implies_true, and_true]
    exact ⟨first, second⟩
  refine .read fun _ _ => .ite (fun _ => .throw) fun _ => (argsCsv_translates both).bind fun sqls each =>
    .pure fun v ran => ?_
  obtain ⟨left, leftRan, ran⟩ := ExceptList.bind_ok.mp ran
  obtain ⟨right, rightRan, ran⟩ := ExceptList.bind_ok.mp ran
  have valuesRan : allValues ([x.item, y.item].map (Item.value row)) = .ok [left, right] := by
    simp only [List.map_cons, List.map_nil, allValues, leftRan, rightRan]
    rfl
  have all : (Item.func attrs variant (.named .nullif) (x.item :: y.item :: more)).sound row =
      ([x.item, y.item].map (Item.argument row)).all Argument.sound := by
    simp [Item.sound, arguments, FuncType.sound, Item.argument]
  change evals stoolap columns sqls >>= stoolap.apply .nullif = _
  rw [all]
  refine reached_ok (evals_reached each valuesRan) ?_
  have same : stoolap.compareValues .eq (integerValue left) (integerValue right) = CompareOp.eq.truth left right :=
    compareValues_integers .eq
  simp only [List.map_cons, List.map_nil, Engine.apply, same]
  obtain rfl := ExceptList.pure_ok.mp ran
  split <;> rfl

theorem ifFunc_translates {test x y : Child}
    (notReal : cls (.func attrs variant (.named .ifFunc) [test.item, x.item, y.item]) ≠ .real)
    (first : test.Translates stoolap columns row g) (second : x.Translates stoolap columns row g)
    (third : y.Translates stoolap columns row g) :
    Yields (· = g) (ifFunc (.func attrs variant (.named .ifFunc) [test.item, x.item, y.item]) [test, x, y])
      (NodeOf stoolap columns row (.func attrs variant (.named .ifFunc) [test.item, x.item, y.item])) := by
  refine .ite (fun _ => .throw) fun _ => first.condition.bind fun _ testOf => (second.branch notReal).bind fun _ xOf =>
    (third.branch notReal).bind fun _ yOf => .pure fun v ran => ?_
  obtain ⟨tested, testRan, ran⟩ := ExceptList.bind_ok.mp ran
  have isTruth : (test.item.value row).isTruth true = decide (toTruth tested = some true) := by
    rw [testRan]
    rfl
  rw [Sql.eval, Sql.eval, Arms.search, ← bind_assoc]
  refine reached_bind (testOf tested testRan) ?_
  simp only [isTruth]
  split at ran
  · rename_i isTrue
    rw [if_pos isTrue, if_pos (by simpa using isTrue)]
    exact xOf v ran
  · rename_i notTrue
    rw [if_neg notTrue, if_neg (by simpa using notTrue)]
    exact yOf v ran

theorem namedFunc_translates {name : FuncName} (inScope : name.overIntegers = true)
    (notReal : cls (.func attrs variant (.named name) (args.map Child.item)) ≠ .real)
    (translates : ∀ arg ∈ args, arg.Translates stoolap columns row g) :
    Yields (· = g) (namedFunc (.func attrs variant (.named name) (args.map Child.item)) name args)
      (NodeOf stoolap columns row (.func attrs variant (.named name) (args.map Child.item))) := by
  have two {sqlOp : Arithmetic} {op : Int → Int → Int}
      (evaluates : ∀ a b : Outcome, name.evaluate [a, b] = do operate op (← a) (← b))
      (sound : ∀ a b : Argument, FuncType.sound (.named name) [a, b] = (a.sound && (b.sound && true)))
      (same : ∀ a b, stoolap.arithmeticValues sqlOp (some (.integer a)) (some (.integer b)) =
        checked (.overflow a b) (op a.toInt b.toInt)) :
      Yields (· = g) (arithmetic (.func attrs variant (.named name) (args.map Child.item)) sqlOp args)
        (NodeOf stoolap columns row (.func attrs variant (.named name) (args.map Child.item))) := by
    rcases args with _ | ⟨x, _ | ⟨y, _ | ⟨z, args⟩⟩⟩
    · exact .throw
    · exact .throw
    · exact arithmetic_translates rfl evaluates sound same (translates x (by simp)) (translates y (by simp))
    · exact .throw
  cases name with
  | plus => exact two (fun _ _ => rfl) (fun _ _ => rfl) fun _ _ => rfl
  | minus => exact two (fun _ _ => rfl) (fun _ _ => rfl) fun _ _ => rfl
  | mul => exact two (fun _ _ => rfl) (fun _ _ => rfl) fun _ _ => rfl
  | abs =>
      rcases args with _ | ⟨x, _ | ⟨y, args⟩⟩
      · exact .throw
      · exact abs_translates (translates x (by simp))
      · exact .throw
  | coalesce => exact coalesce_translates rfl (.inl ⟨rfl, rfl⟩) notReal translates
  | ifnull => exact coalesce_translates rfl (.inr ⟨rfl, rfl⟩) notReal translates
  | nullif =>
      rcases args with _ | ⟨x, _ | ⟨y, _ | ⟨z, _ | ⟨w, args⟩⟩⟩⟩
      · exact .throw
      · exact .throw
      · exact nullif_translates (translates x (by simp)) (translates y (by simp))
      · exact nullif_translates (translates x (by simp)) (translates y (by simp))
      · exact .throw
  | ifFunc =>
      rcases args with _ | ⟨test, _ | ⟨x, _ | ⟨y, _ | ⟨z, args⟩⟩⟩⟩
      · exact .throw
      · exact .throw
      · exact .throw
      · exact ifFunc_translates notReal (translates test (by simp)) (translates x (by simp)) (translates y (by simp))
      · exact .throw
  | div | charLength | concat | other => cases inScope

theorem func_translates {type : FuncType} (inScope : type.overIntegers = true)
    (notReal : cls (.func attrs variant type (args.map Child.item)) ≠ .real)
    (translates : ∀ arg ∈ args, arg.Translates stoolap columns row g) :
    Yields (· = g) (func (.func attrs variant type (args.map Child.item)) variant type args)
      (NodeOf stoolap columns row (.func attrs variant type (args.map Child.item))) := by
  refine .ite (fun _ => .throw) fun _ => ?_
  split
  · exact compare_translates _ _ _ (translates _ (by simp)) (translates _ (by simp))
  · exact .throw
  · exact .throw
  · exact isNull_translates _ (translates _ (by simp))
  · exact .throw
  · exact not_translates (translates _ (by simp))
  · exact .throw
  · exact between_translates _ _ (translates _ (by simp)) (translates _ (by simp)) (translates _ (by simp))
  · exact .throw
  · exact inValues_translates _ _ (translates _ (by simp)) fun arg member => translates arg (List.mem_cons_of_mem _ member)
  · exact .throw
  · cases inScope
  · exact .throw
  · cases inScope
  · exact .ite (fun _ => .throw) fun _ => neg_translates (translates _ (by simp))
  · exact .throw
  · exact caseSearched_translates translates notReal
  · exact caseSimple_translates _ (translates _ (by simp)) (fun arg member => translates arg (List.mem_cons_of_mem _ member))
      notReal
  · exact .throw
  · exact namedFunc_translates inScope notReal translates

theorem cond_translates (type : CondType) (translates : ∀ arg ∈ args, arg.Translates stoolap columns row g) :
    Yields (· = g) (cond type args) (NodeOf stoolap columns row (.cond attrs type (args.map Child.item))) := by
  have connective : Yields (· = g) type.connective fun connective =>
      type = .and ∧ connective = .and ∨ type = .or ∧ connective = .or := by
    cases type with
    | and => exact .pure (.inl ⟨rfl, rfl⟩)
    | or => exact .pure (.inr ⟨rfl, rfl⟩)
    | other => exact .throw
  refine connective.bind fun connective which => .ite (fun _ => .throw) fun _ =>
    (conditions_translates translates).bind fun sqls each => .pure fun v ran => ?_
  rw [Item.value, outcomes_eq] at ran
  obtain ⟨t, tRan, rfl⟩ := ExceptList.map_ok.mp ran
  rw [Sql.eval, Item.sound, arguments_eq, toTruth_ofTruth]
  rcases which with ⟨rfl, rfl⟩ | ⟨rfl, rfl⟩
  · rw [Sql.eval, allOf_reached each tRan, reached_map]
    rfl
  · rw [Sql.eval, anyOf_reached each tRan, reached_map]
    rfl

theorem field_translates (agrees : Agrees g row columns) :
    (f : Option Field) → (Item.field attrs f).Integer →
      Yields (· = g) (field f) (NodeOf stoolap columns row (.field attrs f))
  | none, _ => .throw
  | some f, _ => by
      refine .read fun state here => .ite (fun _ => .throw) fun _ => ?_
      subst here
      cases known : state.aliases.lookup f.table with
      | none => exact .throw
      | some tableAlias =>
          refine .pure fun v ran => ?_
          cases ran
          rw [Sql.eval, agrees f tableAlias known]
          rfl

theorem constant_translates : (value : Literal) → (Item.const attrs value).Integer →
    Yields (· = g) (constant attrs value) (NodeOf stoolap columns row (.const attrs value))
  | .int _, _ => .ite (fun _ => .throw) fun _ => .pure fun v ran => by
      cases ran
      rfl
  | .real _ _, integer | .decimal _, integer | .string _ _ _, integer | .temporal _ _ _, integer => integer.elim

end Functions

section Walk

variable {stoolap : Engine} {columns : Columns} {row : Field → Option Int64} {g : Gen}

theorem funcItem_translates {attrs : Attrs} {variant : Bool} {type : FuncType} {items : List Item}
    (integer : (Item.func attrs variant type items).Integer)
    (translates : ∀ arg ∈ children items, arg.Translates stoolap columns row g) :
    Yields (· = g) (func (.func attrs variant type items) variant type (children items))
      (NodeOf stoolap columns row (.func attrs variant type items)) := by
  obtain ⟨inScope, notReal, -, -⟩ := integer
  have sameItems := children_items items
  rw [← sameItems] at notReal
  have written := func_translates inScope notReal translates
  rw [sameItems] at written
  exact written

theorem condItem_translates {attrs : Attrs} {type : CondType} {items : List Item}
    (translates : ∀ arg ∈ children items, arg.Translates stoolap columns row g) :
    Yields (· = g) (cond type (children items)) (NodeOf stoolap columns row (.cond attrs type items)) := by
  have written : Yields (· = g) (cond type (children items))
      (NodeOf stoolap columns row (.cond attrs type ((children items).map Child.item))) := cond_translates type translates
  rw [children_items] at written
  exact written

mutual

/-- By induction on the tree. -/
theorem node_translates (agrees : Agrees g row columns) : (it : Item) → it.Integer →
    Yields (· = g) (node it) (NodeOf stoolap columns row it)
  | .field _ f, integer => field_translates agrees f integer
  | .const _ value, integer => constant_translates value integer
  | .null _, _ => .pure fun v ran => by
      cases ran
      rfl
  | .func _ _ _ args, integer => funcItem_translates integer (children_translates agrees args integer.2.2.2)
  | .cond _ _ args, integer => condItem_translates (children_translates agrees args integer)
  | .ref _ _ _ _, integer | .param _, integer | .sum _ _ _, integer | .window _ _ _ _ _ _, integer
  | .subselect _ _ _ _, integer | .other _, integer => integer.elim

theorem children_translates (agrees : Agrees g row columns) : (items : List Item) → itemsInteger items →
    ∀ arg ∈ children items, arg.Translates stoolap columns row g
  | [], _ => fun _ member => absurd member List.not_mem_nil
  | it :: items, integer => List.forall_mem_cons.mpr
      ⟨⟨integer.1, node_translates agrees it integer.1⟩, children_translates agrees items integer.2⟩

end

theorem expr_translates (agrees : Agrees g row columns) {it : Item} (integer : it.Integer) :
    Yields (· = g) (expr it) (ValueOf stoolap columns row it) :=
  Child.Translates.expr ⟨integer, node_translates agrees it integer⟩

theorem condition_translates (agrees : Agrees g row columns) {it : Item} (integer : it.Integer) :
    Yields (· = g) (condition it) (ConditionOf stoolap columns row it) :=
  Child.Translates.condition ⟨integer, node_translates agrees it integer⟩

theorem truth_eq_ok {x : Except Fault Value} {t : Truth} : x >>= truth = .ok t ↔ x = .ok (boolean t) := by
  rcases x with fault | (_ | (_ | _ | _ | holds)) <;> rcases t with _ | expected <;>
    simp [truth, boolean, bind, Except.bind]

end Walk

/-- Stoolap gives MariaDB's value, or truth, on a row exactly when every
condition that is reached there is a comparison or a test, or NULL. -/
theorem translation_keeps_value_iff {stoolap : Engine} {g : Gen} {row : Field → Option Int64} {columns : Columns}
    (agrees : Agrees g row columns) {it : Item} (integer : it.Integer) {v : Option Int64}
    (fits : it.value row = .ok v) :
    (∀ sql last, expr it g = .ok (sql, last) →
      (sql.eval stoolap columns = .ok (integerValue v) ↔ it.sound row = true)) ∧
    ∀ sql last, condition it g = .ok (sql, last) →
      (sql.eval stoolap columns = .ok (boolean (toTruth v)) ↔ (it.argument row).condition = true) := by
  constructor
  · intro sql last written
    obtain ⟨-, valueOf⟩ := expr_translates agrees integer g sql last rfl written
    rw [valueOf v fits]
    exact reached_eq_ok
  · intro sql last written
    obtain ⟨-, conditionOf⟩ := condition_translates agrees integer g sql last rfl written
    rw [← truth_eq_ok, conditionOf v fits]
    exact reached_eq_ok

theorem orTrue_integer : orTrue.Integer := by
  refine ⟨⟨rfl, by decide, ?_, rfl, ?_, trivial⟩, ?_, trivial⟩
  · intro named
    cases named
  · intro unsigned
    cases unsigned
  · intro unsigned
    cases unsigned

theorem orTrue_written : condition orTrue oneTable =
    .ok (.paren (.connect .or [.paren (.compare .eq (.column "t0" "a") (.integer 1)), .integer 1]), oneTable) :=
  rfl

/-- A row whose columns all hold the value. -/
def sameRow (value : Int64) : Field → Option Int64 := fun _ => some value

def sameColumns (value : Int64) : Columns := fun _ _ => some (.integer value)

/-- `a = 1 OR TRUE` where `a` is 1: the TRUE is not reached. -/
theorem translation_keeps_value_sample :
    ∃ sql, condition orTrue oneTable = .ok (sql, oneTable) ∧
      sql.eval Engine.reference (sameColumns 1) = .ok (boolean (some true)) :=
  have agrees : Agrees oneTable (sameRow 1) (sameColumns 1) := fun _ _ _ => rfl
  ⟨_, orTrue_written,
    ((translation_keeps_value_iff agrees orTrue_integer (v := some 1) rfl).2 _ _ orTrue_written).mpr rfl⟩

/-- Where `a` is 2, MariaDB has 1, and stoolap fails for the TRUE, which is
written as an integer. -/
theorem true_operand_translation :
    orTrue.Integer ∧ Agrees oneTable (sameRow 2) (sameColumns 2) ∧ orTrue.value (sameRow 2) = .ok (some 1) ∧
      ∃ sql, condition orTrue oneTable = .ok (sql, oneTable) ∧
        sql.eval Engine.reference (sameColumns 2) = .error .notBoolean ∧
        sql.eval Engine.reference (sameColumns 2) ≠ .ok (boolean (toTruth (some 1))) := by
  refine ⟨orTrue_integer, fun _ _ _ => rfl, rfl, _, orTrue_written, rfl, ?_⟩
  intro same
  cases same

end StoolapMariadb.SqlGen
