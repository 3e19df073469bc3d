import StoolapMariadb.SqlGen.Places

namespace StoolapMariadb.SqlGen

/-! Every place where stoolap compares strings is one where MariaDB compares
their bytes: the guards of the generator, construct by construct. -/

open StateExcept
open StoolapMariadb.Types (Charset textIsUtf8)

section Guards

variable {a b it : Item} {collation : Option Charset}

theorem bytewise_of_csSafe {cs : Option Charset} (safe : csSafe false cs = true) : Bytewise cs := by
  obtain ⟨text, binary⟩ := Bool.and_eq_true_iff.mp safe
  cases cs with
  | none => cases binary
  | some c => exact ⟨text, c, rfl, Bool.and_eq_true_iff.mp binary⟩

/-- `Gen::comparable` refuses whatever bytes would not decide. -/
theorem Comparable.of_comparable (safe : comparable false a b collation = true) : Comparable collation a b := by
  unfold comparable at safe
  split at safe
  · exact .null (Bool.or_eq_true_iff.mp ‹_›)
  split at safe
  · exact .numbers (Bool.and_eq_true_iff.mp ‹_›).1 (Bool.and_eq_true_iff.mp ‹_›).2
  split at safe
  · rename_i strings
    obtain ⟨left, right⟩ := Bool.and_eq_true_iff.mp strings
    refine .strings (of_decide_eq_true left) (of_decide_eq_true right) fun cs member => ?_
    cases collation with
    | some settled =>
        rw [List.mem_singleton.mp member]
        exact bytewise_of_csSafe safe
    | none =>
        obtain ⟨first, second⟩ := Bool.and_eq_true_iff.mp safe
        rcases List.mem_cons.mp member with rfl | member
        · exact bytewise_of_csSafe first
        · rw [List.mem_singleton.mp member]
          exact bytewise_of_csSafe second
  · obtain ⟨same, kind⟩ := Bool.and_eq_true_iff.mp safe
    exact .temporal (of_decide_eq_true same) kind

/-- `Gen::orderable`. -/
theorem Orderable.of_orderable (safe : orderable false it = true) : Orderable it := by
  rcases Bool.or_eq_true_iff.mp safe with known | string
  · rcases Bool.or_eq_true_iff.mp known with kind | kind
    · exact .number kind
    · exact .temporal kind
  · obtain ⟨kind, bytes⟩ := Bool.and_eq_true_iff.mp string
    exact .string (of_decide_eq_true kind) (bytewise_of_csSafe bytes)

/-- Only a DATE, DATETIME or TIME is compared with a packed literal. -/
theorem temporal_of_literal {handler : Option HandlerType} {packed : Int64}
    (literal : temporalLiteral a b handler = some packed) : (cls a).temporal = true := by
  unfold temporalLiteral at literal
  cases kind : cls a with
  | datetime | time | tstamp => rfl
  | int | real | str | unsafe_ => simp [kind] at literal

end Guards

section Places

variable {told : List Compared} {first second : List Place} {place : Place}

theorem AllBacked.nil : AllBacked told [] := fun _ member => by cases member

theorem AllBacked.cons (here : Backed told place) (rest : AllBacked told second) : AllBacked told (place :: second) :=
  List.forall_mem_cons.mpr ⟨here, rest⟩

theorem AllBacked.append (left : AllBacked told first) (right : AllBacked told second) :
    AllBacked told (first ++ second) :=
  List.forall_mem_append.mpr ⟨left, right⟩

/-- Values that MariaDB compares with one of the items each. -/
theorem AllBacked.pairs {collation : Option Charset} {subject : Item} {value : Sql} {items : List Item}
    {sqls : List Sql} (wrote : Wrote subject value) (each : ∀ sql ∈ sqls, ∃ it ∈ items, Wrote it sql)
    (compared : items.map (Compared.pair collation subject) ⊆ told)
    (safe : ∀ it ∈ items, Comparable collation subject it) :
    AllBacked told (sqls.map (Place.pair value)) := by
  intro place member
  obtain ⟨sql, sqlIn, rfl⟩ := List.mem_map.mp member
  obtain ⟨it, itIn, other⟩ := each sql sqlIn
  exact .pair (compared (List.mem_map_of_mem itIn)) wrote other (safe it itIn)

end Places

/-- An item of the tree, and what is written for it compares what it does. -/
structure Child.Backs (told : List Compared) (it : Child) : Prop where
  own : it = ⟨it.item, SqlGen.node it.item, SqlGen.query it.item⟩
  node : Yields Distrusts it.node fun sql => AllBacked told sql.places
  query : Yields Distrusts it.query fun query => AllBacked told query.places

/-- A run that writes a sound expression. -/
abbrev Sound (told : List Compared) (x : GenM Sql) : Prop := Yields Distrusts x fun sql => AllBacked told sql.places

section Parts

variable {told : List Compared} {it : Child} {args : List Child}

theorem Child.Backs.expr (backs : it.Backs told) :
    Yields Distrusts it.expr fun sql => Wrote it.item sql ∧ AllBacked told sql.places := by
  have own : it.expr = SqlGen.expr it.item := by rw [backs.own]; rfl
  have places : Sound told it.expr := .ite (fun _ => backs.node) fun _ => backs.node.bind fun _ below => .pure below
  refine places.ran.imp fun sql both => ⟨?_, both.2⟩
  obtain ⟨g, last, start, ran⟩ := both.1
  exact ⟨g, last, start, own ▸ ran⟩

theorem Child.Backs.value (backs : it.Backs told) : Sound told it.expr := backs.expr.imp fun _ both => both.2

theorem Child.Backs.condition (backs : it.Backs told) : Sound told it.condition :=
  .ite (fun _ => backs.node) fun _ => .throw

theorem Child.Backs.branch (backs : it.Backs told) (result : Cls) : Sound told (it.branch result) :=
  .ite (fun _ => backs.value) fun _ => backs.value.bind fun _ below => .pure below

/-- Items written one after another. -/
theorem each_backed {all : List Child → GenM (List Sql)} {one : Child → GenM Sql} (wrote : Child → Sql → Prop)
    (nil : all [] = pure []) (cons : ∀ arg args, all (arg :: args) = do return (← one arg) :: (← all args))
    (sound : ∀ arg ∈ args, Yields Distrusts (one arg) fun sql => wrote arg sql ∧ AllBacked told sql.places) :
    Yields Distrusts (all args) fun sqls =>
      (∀ sql ∈ sqls, ∃ arg ∈ args, wrote arg sql) ∧ AllBacked told (allPlaces sqls) := by
  induction args with
  | nil =>
      rw [nil]
      exact .pure ⟨fun _ member => absurd member List.not_mem_nil, .nil⟩
  | cons arg args ih =>
      obtain ⟨first, rest⟩ := List.forall_mem_cons.mp sound
      rw [cons]
      refine first.bind fun sql here => (ih rest).bind fun sqls others =>
        .pure ⟨List.forall_mem_cons.mpr ⟨?_, fun other member => ?_⟩, .append here.2 others.2⟩
      · exact ⟨arg, List.mem_cons_self, here.1⟩
      · obtain ⟨source, sourceIn, wroteOther⟩ := others.1 other member
        exact ⟨source, List.mem_cons_of_mem _ sourceIn, wroteOther⟩

theorem argsCsv_backed (backs : ∀ arg ∈ args, arg.Backs told) :
    Yields Distrusts (argsCsv args) fun sqls =>
      (∀ sql ∈ sqls, ∃ arg ∈ args, Wrote arg.item sql) ∧ AllBacked told (allPlaces sqls) :=
  each_backed (fun arg => Wrote arg.item) rfl (fun _ _ => rfl) fun arg member => (backs arg member).expr

theorem conditions_backed (backs : ∀ arg ∈ args, arg.Backs told) :
    Yields Distrusts (conditions args) fun sqls => AllBacked told (allPlaces sqls) :=
  (each_backed (fun _ _ => True) rfl (fun _ _ => rfl) fun arg member =>
    (backs arg member).condition.imp fun _ below => ⟨trivial, below⟩).imp fun _ both => both.2

theorem branchArgs_backed (result : Cls) (backs : ∀ arg ∈ args, arg.Backs told) :
    Yields Distrusts (branchArgs result args) fun sqls => AllBacked told (allPlaces sqls) :=
  (each_backed (fun _ _ => True) rfl (fun _ _ => rfl) fun arg member =>
    ((backs arg member).branch result).imp fun _ below => ⟨trivial, below⟩).imp fun _ both => both.2

theorem elseArm_backed {otherwise : Option Child} (backs : ∀ value ∈ otherwise, value.Backs told) (result : Cls) :
    Yields Distrusts (elseArm result otherwise) fun arms => arms.tests = [] ∧ AllBacked told arms.places := by
  cases otherwise with
  | none => exact .pure ⟨rfl, .nil⟩
  | some value => exact ((backs value rfl).branch result).bind fun _ below => .pure ⟨rfl, below⟩

theorem arms_backed {test : Child → GenM Sql} {result : Cls} {otherwise : Option Child} {whens values : List Child}
    (wrote : Child → Sql → Prop)
    (tests : ∀ when ∈ whens, Yields Distrusts (test when) fun sql => wrote when sql ∧ AllBacked told sql.places)
    (branches : ∀ value ∈ values, value.Backs told) (last : ∀ value ∈ otherwise, value.Backs told) :
    Yields Distrusts (arms test result otherwise whens values) fun arms =>
      (∀ sql ∈ arms.tests, ∃ when ∈ whens, wrote when sql) ∧ AllBacked told arms.places := by
  have elseOnly (some : List Child) : Yields Distrusts (elseArm result otherwise) fun arms =>
      (∀ sql ∈ arms.tests, ∃ when ∈ some, wrote when sql) ∧ AllBacked told arms.places := by
    refine (elseArm_backed last result).imp fun arms both => ⟨fun sql member => ?_, both.2⟩
    rw [both.1] at member
    cases member
  induction whens generalizing values with
  | nil => exact elseOnly []
  | cons when whens ih =>
      cases values with
      | nil => exact elseOnly (when :: whens)
      | cons value values =>
          obtain ⟨firstTest, restTests⟩ := List.forall_mem_cons.mp tests
          obtain ⟨firstValue, restValues⟩ := List.forall_mem_cons.mp branches
          refine firstTest.bind fun sql here => (firstValue.branch result).bind fun _ below =>
            (ih restTests restValues).bind fun _ others =>
              .pure ⟨List.forall_mem_cons.mpr ⟨?_, fun other member => ?_⟩, .append here.2 (.append below others.2)⟩
          · exact ⟨when, List.mem_cons_self, here.1⟩
          · obtain ⟨source, sourceIn, wroteOther⟩ := others.1 other member
            exact ⟨source, List.mem_cons_of_mem _ sourceIn, wroteOther⟩

theorem backs_getLast {odd : Prop} [Decidable odd] (backs : ∀ arg ∈ args, arg.Backs told) :
    ∀ arg ∈ (if odd then args.getLast? else none), arg.Backs told := by
  intro arg member
  split at member
  · exact backs arg (List.mem_of_getLast? member)
  · cases member

theorem backs_middle {n m : Nat} (backs : ∀ arg ∈ args, arg.Backs told) :
    ∀ arg ∈ (args.drop n).take m, arg.Backs told :=
  fun arg member => backs arg (List.mem_of_mem_drop (List.mem_of_mem_take member))

theorem caseSearched_backed (f : Item) (backs : ∀ arg ∈ args, arg.Backs told) : Sound told (caseSearched f args) :=
  .ite (fun _ => .throw) fun _ =>
    (arms_backed (fun _ _ => True)
      (fun when member => (backs when (List.mem_of_mem_take member)).condition.imp fun _ below => ⟨trivial, below⟩)
      (backs_middle backs) (backs_getLast backs)).bind fun _ both => .pure both.2

theorem caseSimple_backed (f : Item) (collation : Option Charset) {subject : Child}
    (backs : ∀ arg ∈ subject :: args, arg.Backs told)
    (compared : FuncType.comparisons (.caseSimple collation) ((subject :: args).map Child.item) ⊆ told) :
    Sound told (caseSimple f collation subject args) := by
  obtain ⟨first, rest⟩ := List.forall_mem_cons.mp backs
  refine .read fun g distrusts => .ite (fun _ => .throw) fun safe => .ite (fun _ => .throw) fun _ =>
    first.expr.bind fun sql wrote =>
      (arms_backed (fun when => Wrote when.item) (fun when member => (rest when (List.mem_of_mem_take member)).expr)
        (backs_middle rest) (backs_getLast rest)).bind fun arms both =>
          .pure (.append ?_ (.append wrote.2 both.2))
  have whens : FuncType.comparisons (.caseSimple collation) ((subject :: args).map Child.item) =
      ((args.take (args.length / 2)).map Child.item).map (Compared.pair collation subject.item) := by
    simp only [List.map_cons, FuncType.comparisons, List.length_map, List.map_take]
  refine .pairs wrote.1 (fun test member => ?_) (whens ▸ compared) fun it member => ?_
  · obtain ⟨when, whenIn, wroteTest⟩ := both.1 test member
    exact ⟨when.item, List.mem_map_of_mem whenIn, wroteTest⟩
  · obtain ⟨when, whenIn, rfl⟩ := List.mem_map.mp member
    rw [show g.trustBin = false from distrusts] at safe
    simp only [Bool.not_eq_true, Bool.not_eq_false', List.all_eq_true] at safe
    exact .of_comparable (safe when whenIn)

theorem arithmetic_backed (f : Item) (op : Arithmetic) (backs : ∀ arg ∈ args, arg.Backs told) :
    Sound told (arithmetic f op args) := by
  unfold arithmetic
  split
  · rename_i x y
    exact .ite (fun _ => .throw) fun _ => (backs x (by simp)).value.bind fun _ first =>
      (backs y (by simp)).value.bind fun _ second => .pure (.append first second)
  · exact .throw

theorem abs_backed (f : Item) (backs : ∀ arg ∈ args, arg.Backs told) : Sound told (abs f args) := by
  unfold abs
  split
  · rename_i x
    exact .ite (fun _ => .throw) fun _ => (backs x (by simp)).value.bind fun _ below =>
      .pure (.append .nil (.append below .nil))
  · exact .throw

theorem charLength_backed (backs : ∀ arg ∈ args, arg.Backs told) : Sound told (charLength args) := by
  unfold charLength
  split
  · rename_i x
    exact .ite (fun _ => .throw) fun _ => (backs x (by simp)).value.bind fun _ below =>
      .pure (.append .nil (.append below .nil))
  · exact .throw

theorem coalesce_backed (f : Item) {name : Function} (other : name ≠ .nullif) (backs : ∀ arg ∈ args, arg.Backs told) :
    Sound told (coalesce f name args) := by
  refine .ite (fun _ => .throw) fun _ => (branchArgs_backed _ backs).bind fun sqls below => .pure ?_
  have none : callPlaces name sqls = [] := by
    cases name with
    | nullif => exact absurd rfl other
    | _ => rfl
  exact .append (none ▸ .nil) below

theorem argsCsv_one {y : Child} (backs : y.Backs told) :
    Yields Distrusts (argsCsv [y]) fun sqls =>
      ∃ right, sqls = [right] ∧ Wrote y.item right ∧ AllBacked told right.places := by
  have none : Yields Distrusts (argsCsv []) fun sqls => sqls = [] := .pure rfl
  refine backs.expr.bind fun right rightOf => none.bind fun rest isNil => .pure ⟨right, ?_, rightOf⟩
  rw [isNil]

/-- NULLIF is not told the collation: both operands' own must be binary. -/
theorem nullif_backed {x y : Child} (first : x.Backs told) (second : y.Backs told)
    (compared : .pair none x.item y.item ∈ told) : Sound told (nullif x y) := by
  have operands : Yields Distrusts (argsCsv [x, y]) fun sqls =>
      ∃ left right, sqls = [left, right] ∧ (Wrote x.item left ∧ AllBacked told left.places) ∧
        (Wrote y.item right ∧ AllBacked told right.places) := by
    refine first.expr.bind fun left leftOf => (argsCsv_one second).bind fun rest one => .pure ?_
    obtain ⟨right, rfl, rightOf⟩ := one
    exact ⟨left, right, rfl, leftOf, rightOf⟩
  refine .read fun g distrusts => .ite (fun _ => .throw) fun safe => operands.bind fun sqls both => .pure ?_
  obtain ⟨left, right, rfl, leftOf, rightOf⟩ := both
  rw [show g.trustBin = false from distrusts] at safe
  refine .append (.cons (.pair compared leftOf.1 rightOf.1 (.of_comparable ?_)) .nil)
    (.append leftOf.2 (.append rightOf.2 .nil))
  simpa using safe

theorem ifFunc_backed (f : Item) (backs : ∀ arg ∈ args, arg.Backs told) : Sound told (ifFunc f args) := by
  unfold ifFunc
  split
  · rename_i test x y
    exact .ite (fun _ => .throw) fun _ => (backs test (by simp)).condition.bind fun _ first =>
      ((backs x (by simp)).branch _).bind fun _ second => ((backs y (by simp)).branch _).bind fun _ third =>
        .pure (.append first (.append second third))
  · exact .throw

theorem namedFunc_backed (f : Item) (name : FuncName) (backs : ∀ arg ∈ args, arg.Backs told)
    (compared : FuncType.comparisons (.named name) (args.map Child.item) ⊆ told) :
    Sound told (namedFunc f name args) := by
  cases name with
  | plus | minus | mul | div => exact arithmetic_backed f _ backs
  | abs => exact abs_backed f backs
  | coalesce => exact coalesce_backed f (by decide) backs
  | ifnull => exact coalesce_backed f (by decide) backs
  | nullif =>
      unfold namedFunc
      dsimp only
      split
      · exact nullif_backed (backs _ (by simp)) (backs _ (by simp)) (compared List.mem_cons_self)
      · exact nullif_backed (backs _ (by simp)) (backs _ (by simp)) (compared List.mem_cons_self)
      · exact .throw
  | ifFunc => exact ifFunc_backed f backs
  | charLength => exact charLength_backed backs
  | concat => exact .ite (fun _ => (argsCsv_backed backs).bind fun _ both => .pure both.2) fun _ => .throw
  | other => exact .throw

theorem literal_backed (it : Item) : Sound told (literal it) := by
  induction it using literal.induct with
  | case1 attrs => exact .pure .nil
  | case2 attrs value =>
      have written : Sound told (constant attrs value) := by
        cases value with
        | temporal isTime packed zeroPart => exact .throw
        | _ => exact .ite (fun _ => .throw) fun _ => .pure .nil
      exact written
  | case3 attrs type id target ih => exact ih
  | case4 it noNull noConst noRef =>
      unfold literal
      split
      · exact absurd rfl (noNull _)
      · exact absurd rfl (noConst _ _)
      · exact absurd rfl (noRef _ _ _ _)
      · exact .throw

theorem field_backed (f : Option Field) : Sound told (field f) := by
  cases f with
  | none => exact .throw
  | some f =>
      refine .read fun g _ => .ite (fun _ => .throw) fun _ => ?_
      split
      · exact .throw
      · exact .pure .nil

theorem reference_backed (type : RefType) (id : ItemId) {target : Option Child}
    (backs : ∀ it ∈ target, it.Backs told) : Sound told (reference type id target) := by
  refine .ite (fun _ => .throw) fun _ => ?_
  cases target with
  | none => exact .throw
  | some it =>
      refine .read fun g _ => ?_
      split
      · exact .pure .nil
      · exact (backs it rfl).value

theorem compare_backed (op : Comparison) (handler : HandlerType) (collation : Option Charset) {x y : Child}
    (first : x.Backs told) (second : y.Backs told) (compared : .pair collation x.item y.item ∈ told) :
    Sound told (compare op handler collation x y) := by
  unfold compare
  split
  · rename_i literal
    exact first.expr.bind fun _ wrote => .pure (.cons
      (.packedRight compared wrote.1 (temporal_of_literal literal) literal) (.append wrote.2 .nil))
  · rename_i literal
    exact second.expr.bind fun _ wrote => .pure (.cons
      (.packedLeft compared wrote.1 (temporal_of_literal literal) literal) (.append .nil wrote.2))
  · refine .read fun g distrusts => .ite (fun safe => ?_) fun _ => .throw
    rw [show g.trustBin = false from distrusts] at safe
    exact first.expr.bind fun _ left => second.expr.bind fun _ right => .pure (.cons
      (.pair compared left.1 right.1 (.of_comparable safe)) (.append left.2 right.2))

theorem between_backed (negated : Bool) (collation : Option Charset) {x low high : Child} (backs : x.Backs told)
    (lowBacks : low.Backs told) (highBacks : high.Backs told)
    (compared : [.pair collation x.item low.item, .pair collation x.item high.item] ⊆ told) :
    Sound told (between negated collation x low high) := by
  obtain ⟨withLow, withHigh⟩ : .pair collation x.item low.item ∈ told ∧ .pair collation x.item high.item ∈ told := by
    simpa using compared
  unfold between
  split
  · rename_i lowLiteral highLiteral
    have kind := temporal_of_literal lowLiteral
    exact backs.expr.bind fun _ wrote => .pure (.cons (.packedRight withLow wrote.1 kind lowLiteral)
      (.cons (.packedRight withHigh wrote.1 kind highLiteral) (.append wrote.2 (.append .nil .nil))))
  · refine .read fun g distrusts => .ite (fun safe => ?_) fun _ => .throw
    rw [show g.trustBin = false from distrusts] at safe
    obtain ⟨lowSafe, highSafe⟩ := Bool.and_eq_true_iff.mp safe
    exact backs.expr.bind fun _ wrote => lowBacks.expr.bind fun _ lowWrote => highBacks.expr.bind fun _ highWrote =>
      .pure (.cons (.pair withLow wrote.1 lowWrote.1 (.of_comparable lowSafe))
        (.cons (.pair withHigh wrote.1 highWrote.1 (.of_comparable highSafe))
          (.append wrote.2 (.append lowWrote.2 highWrote.2))))

theorem inValues_backed (negated : Bool) (collation : Option Charset) {x : Child} {list : List Child}
    (backs : ∀ arg ∈ x :: list, arg.Backs told)
    (compared : (list.map Child.item).map (Compared.pair collation x.item) ⊆ told) :
    Sound told (inValues negated collation x list) := by
  obtain ⟨first, rest⟩ := List.forall_mem_cons.mp backs
  refine .read fun g distrusts => .ite (fun _ => .throw) fun _ => .ite (fun safe => ?_) fun _ => .throw
  rw [show g.trustBin = false from distrusts, List.all_eq_true] at safe
  refine first.expr.bind fun _ wrote => (argsCsv_backed rest).bind fun sqls both =>
    .pure (.append (.pairs wrote.1 (fun sql member => ?_) compared fun it member => ?_) (.append wrote.2 both.2))
  · obtain ⟨value, valueIn, wroteValue⟩ := both.1 sql member
    exact ⟨value.item, List.mem_map_of_mem valueIn, wroteValue⟩
  · obtain ⟨value, valueIn, rfl⟩ := List.mem_map.mp member
    exact .of_comparable (safe value valueIn)

theorem like_backed (negated : Bool) (collation : Option Charset) (escape : Char) {x pattern : Child}
    (backs : x.Backs told) (compared : .pattern collation x.item pattern.item ∈ told) :
    Sound told (like negated collation escape x pattern) := by
  refine .read fun g distrusts => .ite (fun _ => .throw) fun safe => .ite (fun _ => .throw) fun _ =>
    backs.expr.bind fun _ wrote => (literal_backed pattern.item).bind fun _ below =>
      .pure (.cons (.pattern compared wrote.1 ?_) (.append wrote.2 below))
  rw [show g.trustBin = false from distrusts] at safe
  cases collation with
  | none => simp at safe
  | some cs =>
      have parts : (cls x.item = .str ∧ escape = '\\') ∧ cs.binsort = true := by simpa using safe
      exact ⟨cs, rfl, parts.2⟩

/-- Each leg of an IN subquery is looked at. -/
theorem checkColumns_comparable (left : Item) (legs : List (List Item)) :
    Yields Distrusts (checkColumns false left legs) fun _ =>
      ∀ items ∈ legs, ∃ it, items = [it] ∧ Comparable none left it := by
  induction legs with
  | nil => exact .pure fun _ member => absurd member List.not_mem_nil
  | cons items legs ih =>
      rcases items with _ | ⟨it, _ | ⟨other, items⟩⟩
      · exact .throw
      · refine .ite (fun safe => ih.imp fun _ others => ?_) fun _ => .throw
        exact List.forall_mem_cons.mpr ⟨⟨it, rfl, .of_comparable safe⟩, others⟩
      · exact .throw

theorem inSubquery_backed {left : Option Child} {unit : SelectUnit} {query : GenM Query}
    (backs : ∀ it ∈ left, it.Backs told) (own : query = SelectUnit.write none unit)
    (sound : Yields Distrusts query fun query => AllBacked told query.places)
    (compared : ∀ it ∈ left, .member it.item unit ∈ told) : Sound told (inSubquery left unit query) := by
  cases left with
  | none => exact .throw
  | some left =>
      refine .ite (fun _ => .throw) fun _ => .ite (fun _ => .throw) fun _ => .read fun g distrusts => ?_
      rw [show g.trustBin = false from distrusts]
      refine (checkColumns_comparable left.item unit.itemLists).bind fun _ safe =>
        (backs left rfl).expr.bind fun _ wrote => sound.ran.bind fun query both =>
          .pure (.cons (.member (compared left rfl) wrote.1 ?_ safe) (.append wrote.2 both.2))
      obtain ⟨start, last, distrusts, ran⟩ := both.1
      exact ⟨none, start, last, distrusts, own ▸ ran⟩

theorem existsSubquery_backed {query : GenM Query}
    (sound : Yields Distrusts query fun query => AllBacked told query.places) : Sound told (existsSubquery query) := by
  have asked : Yields Distrusts (modify fun g => { g with existsList := true } : GenM PUnit) fun _ => True :=
    .change fun _ distrusts => distrusts
  exact asked.bind fun _ _ => sound.bind fun _ below => .pure below

theorem inOptimizer_backed (backs : ∀ arg ∈ args, arg.Backs told)
    (compared : FuncType.comparisons .inOptimizer (args.map Child.item) ⊆ told) : Sound told (inOptimizer args) := by
  unfold inOptimizer
  split
  · rename_i left right
    have leftBacks := backs left (by simp)
    have rightBacks := backs right (by simp)
    split
    · rename_i attrs type leftItem unit isSubselect
      cases type with
      | existsSubs => exact existsSubquery_backed rightBacks.query
      | inSubs =>
          have own : right.query = SelectUnit.write none unit := by
            rw [rightBacks.own, isSubselect]
            rfl
          refine inSubquery_backed (fun it member => ?_) own rightBacks.query fun it member => compared ?_
          · rw [← Option.mem_some.mp member]
            exact leftBacks
          · rw [← Option.mem_some.mp member, List.map_cons, List.map_cons, isSubselect]
            exact List.mem_cons_self
      | singlerowSubs => exact .throw
      | other => exact .throw
    · exact .throw
  · exact .throw

theorem func_backed (f : Item) (variant : Bool) (type : FuncType) (backs : ∀ arg ∈ args, arg.Backs told)
    (compared : type.comparisons (args.map Child.item) ⊆ told) : Sound told (func f variant type args) := by
  refine .ite (fun _ => .throw) fun _ => ?_
  split
  · exact compare_backed _ _ _ (backs _ (by simp)) (backs _ (by simp)) (compared List.mem_cons_self)
  · exact .throw
  · exact .throw
  · exact (backs _ (by simp)).value.bind fun _ below => .pure below
  · exact .throw
  · exact (backs _ (by simp)).condition.bind fun _ below => .pure below
  · exact .throw
  · exact between_backed _ _ (backs _ (by simp)) (backs _ (by simp)) (backs _ (by simp)) compared
  · exact .throw
  · exact inValues_backed _ _ backs compared
  · exact .throw
  · exact like_backed _ _ _ (backs _ (by simp)) (compared List.mem_cons_self)
  · exact .throw
  · exact inOptimizer_backed backs compared
  · exact .ite (fun _ => .throw) fun _ => (backs _ (by simp)).value.bind fun _ below => .pure below
  · exact .throw
  · exact caseSearched_backed f backs
  · exact caseSimple_backed f _ backs compared
  · exact .throw
  · exact namedFunc_backed f _ backs compared

theorem connective_any {inv : Gen → Prop} (type : CondType) : Yields inv type.connective fun _ => True := by
  cases type with
  | and | or => exact .pure trivial
  | other => exact .throw

theorem cond_backed (type : CondType) (backs : ∀ arg ∈ args, arg.Backs told) : Sound told (cond type args) := by
  exact (connective_any type).bind fun _ _ => .ite (fun _ => .throw) fun _ =>
    (conditions_backed backs).bind fun _ below => .pure below

theorem subselect_backed (type : SubsType) {left : Option Child} {unit : SelectUnit}
    (backs : ∀ it ∈ left, it.Backs told)
    (sound : Yields Distrusts (SelectUnit.write none unit) fun query => AllBacked told query.places)
    (compared : type.comparisons (left.map Child.item) unit ⊆ told) :
    Sound told (subselect type left unit (SelectUnit.write none unit)) := by
  cases type with
  | singlerowSubs => exact sound.bind fun _ below => .pure below
  | existsSubs => exact existsSubquery_backed sound
  | inSubs =>
      refine inSubquery_backed backs rfl sound fun it member => compared ?_
      rw [Option.mem_def.mp member]
      exact List.mem_cons_self
  | other => exact .throw

/-- MIN, MAX and DISTINCT take an orderable argument; SUM a number. -/
theorem sum_backed (func : SumFunc) (overWindow : Bool) (backs : ∀ arg ∈ args, arg.Backs told)
    (compared : func.comparisons (args.map Child.item) ⊆ told) : Sound told (sum func args overWindow) := by
  have key {x : Child} {value : Sql} (isKey : func.comparisons [x.item] = [.key x.item])
      (argument : args = [x]) (wrote : Wrote x.item value) (safe : Orderable x.item) :
      AllBacked told [.key value] := by
    subst argument
    exact .cons (.key (compared (isKey ▸ List.mem_cons_self)) wrote safe) .nil
  refine .read fun g distrusts => ?_
  rw [show g.trustBin = false from distrusts]
  split
  · exact .ite (fun _ => .pure .nil) fun _ => (backs _ (by simp)).value.bind fun _ below => .pure (.append .nil below)
  · exact .throw
  · rename_i x
    refine .ite (fun _ => .throw) fun safe => (backs x (by simp)).expr.bind fun _ wrote =>
      .pure (.append (key rfl rfl wrote.1 (.of_orderable ?_)) wrote.2)
    have parts : overWindow = false ∧ orderable false x.item = true := by simpa using safe
    exact parts.2
  · exact .throw
  · exact .ite (fun _ => .throw) fun _ => (backs _ (by simp)).value.bind fun _ below => .pure (.append .nil below)
  · exact .throw
  · refine .ite (fun _ => .throw) fun number => .ite (fun _ => .throw) fun _ =>
      (backs _ (by simp)).expr.bind fun _ wrote => .pure (.append (key rfl rfl wrote.1 (.number ?_)) wrote.2)
    simpa using number
  · exact .throw
  · exact .ite (fun _ => .throw) fun _ => (backs _ (by simp)).value.bind fun _ below => .pure (.append .nil below)
  · exact .throw
  · refine .ite (fun _ => .throw) fun safe => (backs _ (by simp)).expr.bind fun _ wrote =>
      .pure (.append (key rfl rfl wrote.1 (.of_orderable ?_)) wrote.2)
    simpa using safe
  · refine .ite (fun _ => .throw) fun safe => (backs _ (by simp)).expr.bind fun _ wrote =>
      .pure (.append (key rfl rfl wrote.1 (.of_orderable ?_)) wrote.2)
    simpa using safe
  · exact .throw
  · exact .throw
  · exact .throw

/-- The keys of ORDER BY, GROUP BY and PARTITION BY. -/
theorem orderList_backed (directions : Bool) {keys : List OrderChild} (backs : ∀ key ∈ keys, key.child.Backs told)
    (compared : ∀ key ∈ keys, .key key.child.item ∈ told) :
    Yields Distrusts (orderList directions keys) fun sorted => AllBacked told (keysPlaces sorted) := by
  induction keys with
  | nil => exact .pure .nil
  | cons key keys ih =>
      obtain ⟨first, rest⟩ := List.forall_mem_cons.mp backs
      obtain ⟨firstTold, restTold⟩ := List.forall_mem_cons.mp compared
      refine .read fun g distrusts => .ite (fun _ => .throw) fun safe => first.expr.bind fun _ wrote =>
        (ih rest restTold).bind fun _ others =>
          .pure (.append (.cons (.key firstTold wrote.1 (.of_orderable ?_)) wrote.2) others)
      rw [show g.trustBin = false from distrusts] at safe
      simpa using safe

theorem windowFunction_backed (func : SumFunc) (frame : Option Frame) (backs : ∀ arg ∈ args, arg.Backs told)
    (compared : func.comparisons (args.map Child.item) ⊆ told) :
    Yields Distrusts (windowFunction func args frame) fun function => AllBacked told function.2.places := by
  unfold windowFunction
  split
  · exact .pure .nil
  · exact .pure .nil
  · exact .pure .nil
  · exact .ite (fun _ => .throw) fun _ => (argsCsv_backed backs).bind fun _ both => .pure both.2
  · exact .ite (fun _ => .throw) fun _ => (argsCsv_backed backs).bind fun _ both => .pure both.2
  · exact .ite (fun _ => .throw) fun _ => (sum_backed func true backs compared).bind fun _ below => .pure below

theorem window_backed (func : SumFunc) {partition order : List OrderChild} (frame : Option Frame)
    (backs : ∀ arg ∈ args, arg.Backs told) (compared : func.comparisons (args.map Child.item) ⊆ told)
    (partitioned : Yields Distrusts (orderList false partition) fun keys => AllBacked told (keysPlaces keys))
    (ordered : Yields Distrusts (orderList true order) fun keys => AllBacked told (keysPlaces keys)) :
    Sound told (window func args partition order frame) := by
  refine (windowFunction_backed func frame backs compared).bind fun function below =>
    partitioned.bind fun _ left => ordered.bind fun _ right => ?_
  split
  · exact .ite (fun _ => .throw) fun _ => (frameBound_any _).bind fun _ _ =>
      (frameBound_any _).bind fun _ _ => .pure (.append below (.append left right))
  · exact .pure (.append below (.append left right))

end Parts

/-- A table of a join list, with what its ON and its parts write. -/
structure TableChild.Backs (told : List Compared) (t : TableChild) : Prop where
  on : ∀ it ∈ t.on, it.Backs told
  joinList : Yields Distrusts t.joinList fun result =>
    AllBacked told (sourcePlaces result.1) ∧ ∀ it ∈ result.2, it.Backs told
  tableRef : Yields Distrusts t.tableRef fun result =>
    AllBacked told result.1.places ∧ ∀ it ∈ result.2, it.Backs told

/-- Keys that MariaDB sorts or groups by. -/
def KeysBack (told : List Compared) (keys : List OrderChild) : Prop :=
  ∀ key ∈ keys, key.child.Backs told ∧ .key key.child.item ∈ told

structure SelectChild.Backs (told : List Compared) (distinct : Bool) (parts : SelectChild) : Prop where
  from_ : Yields Distrusts parts.from_ fun result =>
    AllBacked told (sourcePlaces result.1) ∧ ∀ it ∈ result.2, it.Backs told
  items : ∀ it ∈ parts.items, it.Backs told
  distinct : distinct = true → ∀ it ∈ parts.items, .key it.item ∈ told
  filter : ∀ it ∈ parts.filter, it.Backs told
  group : KeysBack told parts.group
  having : ∀ it ∈ parts.having, it.Backs told
  order : KeysBack told parts.order

section Selects

variable {told : List Compared}

theorem sourcePlaces_append (first rest : List Joined) :
    sourcePlaces (first ++ rest) = sourcePlaces first ++ sourcePlaces rest := by
  induction first with
  | nil => rfl
  | cons joined first ih => rw [List.cons_append, sourcePlaces, ih, sourcePlaces, List.append_assoc]

theorem keys_backed (directions : Bool) {keys : List OrderChild} (backs : KeysBack told keys) :
    Yields Distrusts (orderList directions keys) fun sorted => AllBacked told (keysPlaces sorted) :=
  orderList_backed directions (fun key member => (backs key member).1) fun key member => (backs key member).2

theorem optionalCondition_backed {it : Option Child} (backs : ∀ child ∈ it, child.Backs told) :
    Yields Distrusts (optionalCondition it) fun sqls => AllBacked told (allPlaces sqls) := by
  cases it with
  | none => exact .pure .nil
  | some child => exact (backs child rfl).condition.bind fun _ below => .pure (.append below .nil)

theorem modify_distrusts {change : Gen → Gen} (same : ∀ g, (change g).trustBin = g.trustBin) :
    Yields Distrusts (modify change : GenM PUnit) fun _ => True :=
  .change fun g distrusts => (same g).trans distrusts

theorem baseRef_backed (id : TableId) (name : String) :
    Yields Distrusts (baseRef id name) fun source => AllBacked told source.places :=
  .read fun _ _ => .bind (modify_distrusts fun _ => rfl) fun _ _ => .pure .nil

theorem joinTables_backed (first : Bool) {tables : List TableChild} (backs : ∀ t ∈ tables, t.Backs told) :
    Yields Distrusts (joinTables first tables) fun result =>
      AllBacked told (sourcePlaces result.1) ∧ ∀ it ∈ result.2, it.Backs told := by
  induction tables generalizing first with
  | nil => exact .pure ⟨.nil, fun _ member => absurd member List.not_mem_nil⟩
  | cons t tables ih =>
      obtain ⟨here, rest⟩ := List.forall_mem_cons.mp backs
      refine .ite (fun _ => .throw) fun _ => .ite (fun _ => .throw) fun _ => .ite (fun _ => ?_) fun _ => ?_
      · refine here.joinList.bind fun nested both => (ih false rest).bind fun others more => .pure ⟨?_, ?_⟩
        · rw [sourcePlaces_append]
          exact .append both.1 more.1
        · exact List.forall_mem_append.mpr ⟨both.2, more.2⟩
      · refine here.tableRef.bind fun result both => ?_
        obtain ⟨source, merged⟩ := result
        dsimp only
        split
        · rename_i on isOn
          refine .ite (fun _ => .throw) fun _ => (here.on on isOn).condition.bind fun _ cond =>
            (optionalCondition_backed both.2).bind fun _ merged => (ih false rest).bind fun others more =>
              .pure ⟨?_, more.2⟩
          exact .append (.append both.1 (.append cond merged)) more.1
        · refine .ite (fun _ => .throw) fun _ => (ih false rest).bind fun others more =>
            .pure ⟨.append (.append both.1 .nil) more.1, ?_⟩
          exact List.forall_mem_append.mpr ⟨fun it member => both.2 it (Option.mem_toList.mp member), more.2⟩

theorem joinList_backed {tables : List TableChild} (backs : ∀ t ∈ tables, t.Backs told) :
    Yields Distrusts (joinList tables) fun result =>
      AllBacked told (sourcePlaces result.1) ∧ ∀ it ∈ result.2, it.Backs told :=
  .ite (fun _ => .throw) fun _ => joinTables_backed true fun t member => backs t (List.mem_reverse.mp member)

theorem derivedRef_backed (id : TableId) (selects : List Select) (recursive outerInner : Bool)
    (columns : Option (List DerivedColumn)) {filter : Option Child} {unit : Option (List String) → GenM Query}
    (backs : ∀ it ∈ filter, it.Backs told)
    (sound : ∀ names, Yields Distrusts (unit names) fun query => AllBacked told query.places) :
    Yields Distrusts (derivedRef id selects recursive outerInner columns filter unit) fun result =>
      AllBacked told result.1.places ∧ ∀ it ∈ result.2, it.Backs told := by
  refine .read fun g _ => ?_
  split
  · exact (baseRef_backed _ _).bind fun _ below => .pure ⟨below, backs⟩
  · split
    · exact .throw
    · exact .read fun _ _ => .bind (modify_distrusts fun _ => rfl) fun _ _ => (sound _).bind fun _ below =>
        .pure ⟨below, fun _ member => by cases member⟩

/-- Where a value is widened to a DOUBLE it is none of a DISTINCT list. -/
theorem outputValue_backed {it : Child} (backs : it.Backs told) (distinct : Bool) (cols : Option (List Cls)) (n : Nat) :
    Yields Distrusts (outputValue distinct cols n it) fun sql =>
      (distinct = true → Wrote it.item sql) ∧ AllBacked told sql.places := by
  have plain : Yields Distrusts it.expr fun sql => (distinct = true → Wrote it.item sql) ∧ AllBacked told sql.places :=
    backs.expr.imp fun _ both => ⟨fun _ => both.1, both.2⟩
  cases cols with
  | none => exact plain
  | some cols =>
      unfold outputValue
      dsimp only
      split
      · exact .throw
      · refine .ite (fun _ => .throw) fun _ => .ite (fun _ => .throw) fun narrow => .ite (fun _ => plain) fun widened =>
          backs.value.bind fun _ below => .pure ⟨fun isDistinct => ?_, below⟩
        simp_all

theorem outputs_backed (distinct : Bool) (names : Option (List String)) (cols : Option (List Cls)) (n : Nat)
    {items : List Child} (backs : ∀ it ∈ items, it.Backs told)
    (compared : distinct = true → ∀ it ∈ items, .key it.item ∈ told) :
    Yields Distrusts (outputs distinct names cols n items) fun list =>
      AllBacked told (distinctPlaces distinct list) ∧ AllBacked told (outputsPlaces list) := by
  have empty : distinctPlaces distinct [] = [] := by cases distinct <;> rfl
  induction items generalizing n with
  | nil => exact .pure ⟨empty ▸ .nil, .nil⟩
  | cons it items ih =>
      obtain ⟨first, rest⟩ := List.forall_mem_cons.mp backs
      refine .read fun g distrusts => .ite (fun _ => .throw) fun safe => .ite (fun _ => .throw) fun _ =>
        (outputValue_backed first distinct cols n).bind fun value both => (outputName_any names _ n).bind
          fun name _ => (ih (n + 1) rest fun asked => (List.forall_mem_cons.mp (compared asked)).2).bind
            fun list others => .pure ⟨?_, .append both.2 others.2⟩
      rw [show g.trustBin = false from distrusts] at safe
      cases distinct with
      | false => exact .nil
      | true =>
          refine .cons (.key (compared rfl it List.mem_cons_self) (both.1 rfl) (.of_orderable ?_)) others.1
          simpa using safe

theorem selectList_backed (anyRow : Bool) (names : Option (List String)) (cols : Option (List Cls))
    (flags : SelectFlags) {items : List Child} (backs : ∀ it ∈ items, it.Backs told)
    (compared : flags.distinct = true → ∀ it ∈ items, .key it.item ∈ told) :
    Yields Distrusts (selectList anyRow names cols flags items) fun list =>
      AllBacked told (listPlaces (list.isSome && flags.distinct) list) :=
  .ite (fun _ => .pure .nil) fun _ =>
    (outputs_backed flags.distinct names cols 0 backs compared).map fun _ both => .append both.1 both.2

/-- The keys sorted by are the ORDER BY's, or those of GROUP BY. -/
theorem sortKeys_backed (top : Bool) (flags : SelectFlags) {parts : SelectChild}
    (backs : parts.Backs told flags.distinct) : KeysBack told (sortKeys top flags parts) := by
  unfold sortKeys
  split
  · exact backs.order
  · split
    · exact backs.group
    · exact fun key member => absurd member List.not_mem_nil

theorem head_backed {sqls : List Sql} (backed : AllBacked told (allPlaces sqls)) :
    AllBacked told (optionalPlaces sqls.head?) := by
  cases sqls with
  | nil => exact .nil
  | cons sql sqls => exact (List.forall_mem_append.mp backed).1

theorem selectParts_backed (top : Bool) (names : Option (List String)) (cols : Option (List Cls))
    (flags : SelectFlags) {parts : SelectChild} (backs : parts.Backs told flags.distinct) :
    Yields Distrusts (selectParts top names cols flags parts) fun query => AllBacked told query.places := by
  refine .ite (fun _ => .throw) fun _ => .ite (fun _ => .throw) fun _ => .read fun g _ =>
    .bind (modify_distrusts fun _ => rfl) fun _ _ => .ite (fun _ => .throw) fun _ => .ite (fun _ => .throw) fun _ =>
      .ite (fun _ => .throw) fun _ => backs.from_.bind fun result tables => ?_
  obtain ⟨joined, merged⟩ := result
  have filters : ∀ it ∈ parts.filter.toList ++ merged, it.Backs told :=
    List.forall_mem_append.mpr ⟨fun it member => backs.filter it (Option.mem_toList.mp member), tables.2⟩
  exact (selectList_backed _ names cols flags backs.items backs.distinct).bind fun _ listed =>
    (conditions_backed filters).bind fun _ filtered => (keys_backed false backs.group).bind fun _ grouped =>
      (optionalCondition_backed backs.having).bind fun _ had =>
        (keys_backed true (sortKeys_backed top flags backs)).bind fun _ sorted =>
          (limit_any flags.limit).bind fun _ _ => .pure (.append listed (.append tables.1
            (.append filtered (.append grouped (.append (head_backed had) sorted)))))

/-- Rows that are compared have columns that may be. -/
theorem legTypes_orderable (dedup : Bool) (types : List Item) :
    Yields Distrusts (legTypes dedup types) fun _ => dedup = true → ∀ t ∈ types, Orderable t := by
  induction types with
  | nil => exact .pure fun _ _ member => absurd member List.not_mem_nil
  | cons t types ih =>
      refine .ite (fun _ => .throw) fun _ => .read fun g distrusts => .ite (fun _ => .throw) fun safe =>
        ih.bind fun _ others => .pure fun asked => List.forall_mem_cons.mpr ⟨.of_orderable ?_, others asked⟩
      rw [show g.trustBin = false from distrusts] at safe
      simpa [asked] using safe

theorem legsOrder_orderable (names : Option (List String)) (cols fields : Nat) (keys : List LegsOrder) :
    Yields Distrusts (legsOrder names cols fields keys) fun _ => ∀ key ∈ keys, Orderable key.item := by
  induction keys with
  | nil => exact .pure fun _ member => absurd member List.not_mem_nil
  | cons key keys ih =>
      obtain ⟨it, fieldIndex, descending⟩ := key
      refine .ite (fun _ => .throw) fun _ => ?_
      split
      · exact .throw
      · refine .ite (fun _ => .throw) fun _ => .read fun g distrusts => .ite (fun _ => .throw) fun safe =>
          (columnName_any names _).bind fun _ _ => ih.bind fun _ others =>
            .pure (List.forall_mem_cons.mpr ⟨.of_orderable ?_, others⟩)
        rw [show g.trustBin = false from distrusts] at safe
        change orderable false it = true
        simpa using safe

def SelectGen.dedups (leg : SelectGen) : Bool :=
  leg.select.flags.distinctLeg || leg.select.flags.linkage ≠ .union

theorem setOp_union (linkage : Linkage) :
    Yields Distrusts (setOp linkage) fun op => op ≠ .union ↔ linkage ≠ .union := by
  cases linkage with
  | union | intersect | except => exact .pure (by decide)
  | other => exact .throw

theorem legQuery_backed {names : Option (List String)} {cols : List Cls} {leg : SelectGen}
    (sound : ∀ names cols, Yields Distrusts (leg.write names cols) fun query => AllBacked told query.places) :
    Yields Distrusts (legQuery names cols leg) fun query => AllBacked told query.places :=
  .ite (fun _ => .throw) fun _ => .ite (fun _ => .throw) fun _ => sound names (some cols)

theorem laterLegs_backed (cols : List Cls) {legs : List SelectGen}
    (sound : ∀ leg ∈ legs, ∀ names cols, Yields Distrusts (leg.write names cols) fun query =>
      AllBacked told query.places) :
    Yields Distrusts (laterLegs cols legs) fun rest =>
      AllBacked told (legsPlaces rest) ∧ rest.any Leg.dedups = legs.any SelectGen.dedups := by
  induction legs with
  | nil => exact .pure ⟨.nil, rfl⟩
  | cons leg legs ih =>
      obtain ⟨first, rest⟩ := List.forall_mem_cons.mp sound
      refine (setOp_union _).bind fun op same => (legQuery_backed first).bind fun query below =>
        (ih rest).bind fun others both => .pure ⟨.append below both.1, ?_⟩
      have dedups : Leg.dedups (.mk op (!leg.select.flags.distinctLeg) query) = leg.dedups := by
        simp only [Leg.dedups, SelectGen.dedups, Bool.not_not, same, Bool.or_comm]
      rw [List.any_cons, List.any_cons, dedups, both.2]

/-- What several legs write: their queries are sound, and the columns that rows
are compared or sorted by are orderable. -/
def LegsBacked (told : List Compared) (types : List Item) (order : List LegsOrder) (query : Query) : Prop :=
  (query.dedups = true → ∀ t ∈ types, Orderable t) ∧ (∀ key ∈ order, Orderable key.item) ∧
    ∃ below, query.places = .rows query :: below ∧ AllBacked told below

theorem unitParts_backed (names : Option (List String)) (recursive : Bool) (types : List Item) (fields : Nat)
    (order : List LegsOrder) (withTies : Bool) (rows : Option LimitParams) {selects : List SelectGen}
    (sound : ∀ select ∈ selects, ∀ names cols, Yields Distrusts (select.write names cols) fun query =>
      AllBacked told query.places) :
    Yields Distrusts (unitParts names recursive types fields order withTies rows selects) fun query =>
      AllBacked told query.places ∨ LegsBacked told types order query := by
  unfold unitParts
  split
  · exact .throw
  · exact (sound _ (by simp) names none).imp fun _ below => .inl below
  · rename_i first legs _
    obtain ⟨firstSound, legsSound⟩ := List.forall_mem_cons.mp sound
    refine .ite (fun _ => .throw) fun _ => .bind (modify_distrusts fun _ => rfl) fun _ _ =>
      (legTypes_orderable _ types).bind fun cols distinct => (legQuery_backed firstSound).bind fun head below =>
        (laterLegs_backed cols legsSound).bind fun rest both => .ite (fun _ => .throw) fun _ =>
          (legsOrder_orderable names cols.length fields order).bind fun keys sorted =>
            (limit_any rows).bind fun _ _ => .pure (.inr ⟨fun dedups => distinct ?_, sorted, ?_⟩)
    · exact both.2.symm.trans dedups
    · exact ⟨_, rfl, .append below both.1⟩

end Selects

section Walk

variable {told : List Compared}

theorem distinct_told {distinct : Bool} {items : List Item}
    (compared : (if distinct then items.map Compared.key else []) ⊆ told) :
    distinct = true → ∀ it ∈ children items, .key it.item ∈ told := by
  intro asked it member
  rw [if_pos asked] at compared
  refine compared (List.mem_map_of_mem ?_)
  rw [← children_items items]
  exact List.mem_map_of_mem member

mutual

theorem node_backed : (it : Item) → it.comparisons ⊆ told → Sound told (node it)
  | .field _ f, _ => field_backed f
  | .ref _ type id target, compared => reference_backed type id (optional_backed target compared)
  | .const attrs value, _ => literal_backed (.const attrs value)
  | .null attrs, _ => literal_backed (.null attrs)
  | .param _, _ => .throw
  | .func _ variant type args, compared =>
      func_backed _ variant type (children_backed args (List.append_subset.mp compared).2)
        (by rw [children_items]; exact (List.append_subset.mp compared).1)
  | .cond _ type args, compared => cond_backed type (children_backed args compared)
  | .sum _ f args, compared =>
      sum_backed f false (children_backed args (List.append_subset.mp compared).2)
        (by rw [children_items]; exact (List.append_subset.mp compared).1)
  | .window _ f args partition order frame, compared => by
      obtain ⟨own, below⟩ := List.append_subset.mp compared
      obtain ⟨ofArgs, keys⟩ := List.append_subset.mp below
      obtain ⟨partitioned, ordered⟩ := List.append_subset.mp keys
      exact window_backed f frame (children_backed args ofArgs) (by rw [children_items]; exact own)
        (keys_backed false (orders_backed partition partitioned)) (keys_backed true (orders_backed order ordered))
  | .subselect _ type left unit, compared => by
      obtain ⟨own, below⟩ := List.append_subset.mp compared
      obtain ⟨ofLeft, ofUnit⟩ := List.append_subset.mp below
      exact subselect_backed type (optional_backed left ofLeft) (unit_backed none unit ofUnit)
        (by rw [optional_item]; exact own)
  | .other _, _ => .throw

theorem query_backed : (it : Item) → it.comparisons ⊆ told →
    Yields Distrusts (query it) fun query => AllBacked told query.places
  | .subselect _ _ _ unit, compared =>
      unit_backed none unit (List.append_subset.mp (List.append_subset.mp compared).2).2
  | .field _ _, _ | .ref _ _ _ _, _ | .const _ _, _ | .null _, _ | .param _, _ | .func _ _ _ _, _
  | .cond _ _ _, _ | .sum _ _ _, _ | .window _ _ _ _ _ _, _ | .other _, _ => .throw

theorem optional_backed : (it : Option Item) → optionComparisons it ⊆ told → ∀ child ∈ optional it, child.Backs told
  | none, _ => fun child member => by cases member
  | some it, compared => fun child member => by
      cases member
      exact ⟨rfl, node_backed it compared, query_backed it compared⟩

theorem children_backed : (items : List Item) → itemsComparisons items ⊆ told →
    ∀ child ∈ children items, child.Backs told
  | [], _ => fun child member => by cases member
  | it :: items, compared => by
      obtain ⟨here, rest⟩ := List.append_subset.mp compared
      exact List.forall_mem_cons.mpr ⟨⟨rfl, node_backed it here, query_backed it here⟩, children_backed items rest⟩

theorem orders_backed : (keys : List Order) → ordersComparisons keys ⊆ told → KeysBack told (orderChildren keys)
  | [], _ => fun key member => by cases member
  | .mk it descending :: keys, compared => by
      obtain ⟨here, below⟩ := List.cons_subset.mp compared
      obtain ⟨inside, rest⟩ := List.append_subset.mp below
      exact List.forall_mem_cons.mpr
        ⟨⟨⟨rfl, node_backed it inside, query_backed it inside⟩, here⟩, orders_backed keys rest⟩

theorem select_backed (top : Bool) (names : Option (List String)) (cols : Option (List Cls)) :
    (select : Select) → select.comparisons ⊆ told →
      Yields Distrusts (Select.write top names cols select) fun query => AllBacked told query.places
  | .mk flags tables items filter groupList having orderList, compared => by
      obtain ⟨distinct, compared⟩ := List.append_subset.mp compared
      obtain ⟨ofItems, compared⟩ := List.append_subset.mp compared
      obtain ⟨ofTables, compared⟩ := List.append_subset.mp compared
      obtain ⟨ofFilter, compared⟩ := List.append_subset.mp compared
      obtain ⟨ofGroup, compared⟩ := List.append_subset.mp compared
      obtain ⟨ofHaving, ofOrder⟩ := List.append_subset.mp compared
      exact selectParts_backed top names cols flags
        { from_ := joinList_backed (tables_backed tables ofTables)
          items := children_backed items ofItems
          distinct := distinct_told distinct
          filter := optional_backed filter ofFilter
          group := orders_backed groupList ofGroup
          having := optional_backed having ofHaving
          order := orders_backed orderList ofOrder }

theorem selectGens_backed : (selects : List Select) → selectsComparisons selects ⊆ told →
    ∀ select ∈ selectGens selects, ∀ names cols,
      Yields Distrusts (select.write names cols) fun query => AllBacked told query.places
  | [], _ => fun select member => by cases member
  | select :: selects, compared => by
      obtain ⟨here, rest⟩ := List.append_subset.mp compared
      exact List.forall_mem_cons.mpr
        ⟨fun names cols => select_backed false names cols select here, selectGens_backed selects rest⟩

theorem unit_backed (names : Option (List String)) : (unit : SelectUnit) → unit.comparisons ⊆ told →
    Yields Distrusts (SelectUnit.write names unit) fun query => AllBacked told query.places
  | .mk selects recursive types fields order withTies rows, compared => by
      obtain ⟨here, below⟩ := List.cons_subset.mp compared
      refine (unitParts_backed names recursive types fields order withTies rows
        (selectGens_backed selects below)).ran.imp fun query both => ?_
      obtain ⟨⟨start, last, distrusts, ran⟩, single | ⟨distinct, sorted, rest, places, backed⟩⟩ := both
      · exact single
      · rw [places]
        exact .cons (.rows here ⟨names, start, last, distrusts, ran⟩ distinct sorted) backed

theorem firstFilter_backed : (selects : List Select) → selectsComparisons selects ⊆ told →
    ∀ child ∈ firstFilter selects, child.Backs told
  | [], _ => fun child member => by cases member
  | .mk flags tables items filter groupList having orderList :: selects, compared => by
      obtain ⟨here, -⟩ := List.append_subset.mp compared
      obtain ⟨-, here⟩ := List.append_subset.mp here
      obtain ⟨-, here⟩ := List.append_subset.mp here
      obtain ⟨-, here⟩ := List.append_subset.mp here
      exact optional_backed filter (List.append_subset.mp here).1

theorem tables_backed : (tables : List TableList) → tablesComparisons tables ⊆ told →
    ∀ t ∈ tableChildren tables, t.Backs told
  | [], _ => fun t member => by cases member
  | .mk kind on outer semiJoin :: tables, compared => by
      obtain ⟨ofKind, compared⟩ := List.append_subset.mp compared
      obtain ⟨ofOn, rest⟩ := List.append_subset.mp compared
      exact List.forall_mem_cons.mpr ⟨⟨optional_backed on ofOn, joinTables_of_kind kind ofKind,
        ref_backed outer kind ofKind⟩, tables_backed tables rest⟩

theorem joinTables_of_kind : (kind : TableKind) → kind.comparisons ⊆ told →
    Yields Distrusts (TableKind.joinTables kind) fun result =>
      AllBacked told (sourcePlaces result.1) ∧ ∀ it ∈ result.2, it.Backs told
  | .nested tables, compared => joinList_backed (tables_backed tables compared)
  | .base _ _, _ | .derived _ _ _ _, _ | .unopened, _ => .throw

theorem ref_backed (outer : Bool) : (kind : TableKind) → kind.comparisons ⊆ told →
    Yields Distrusts (TableKind.ref outer kind) fun result =>
      AllBacked told result.1.places ∧ ∀ it ∈ result.2, it.Backs told
  | .derived id unit columns embeddedOuter, compared => by
      obtain ⟨selects, recursive, types, fields, order, withTies, rows⟩ := unit
      have written := derivedRef_backed id selects recursive (outer || embeddedOuter) columns
        (firstFilter_backed selects (List.cons_subset.mp compared).2) fun names =>
          unit_backed names (.mk selects recursive types fields order withTies rows) compared
      exact written
  | .nested _, _ => .throw
  | .unopened, _ => .throw
  | .base id name, _ => (baseRef_backed id name).bind fun _ below => .pure ⟨below, fun _ member => by cases member⟩

end

end Walk

end StoolapMariadb.SqlGen
