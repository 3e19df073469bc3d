import StoolapMariadb.Lib.Lookup
import StoolapMariadb.SqlGen.Collations
import StoolapMariadb.SqlGen.Formed

namespace StoolapMariadb.SqlGen

/-! Whatever the generator writes has the shape its parentheses are for. -/

open StateExcept
open StoolapMariadb.Types (Charset)

/-- Aliases are words that are no keywords, or quoted names. -/
structure Named (g : Gen) : Prop where
  aliases : ∀ entry ∈ g.aliases, (aliasTok entry.2).Valid
  viewCols : ∀ entry ∈ g.viewCols, (aliasTok entry.2.1).Valid

/-- What may stand behind the minus sign of a NEG_FUNC. -/
def Allows (ok : Item → Prop) (may : Sql → Prop) : Prop :=
  ∀ it sql, ok it → 7 ≤ sql.level → (sql.level = 7 → sql.negative = true ∧ it.signed = true ∧ it.isBoolType = false) →
    may sql

/-- A value is an operand of anything but a minus sign. -/
def Sql.Value (may : Sql → Prop) (sql : Sql) : Prop := 7 ≤ sql.level ∧ sql.Shaped may

/-- Where it begins with a minus sign, it is a number below zero that is written
for one. -/
def Sql.Minus (sql : Sql) (signed : Prop) : Prop := sql.level = 7 → sql.negative = true ∧ signed

/-- A run that writes an operand without a sign of its own. -/
abbrev Encloses (may : Sql → Prop) (x : GenM Sql) : Prop := Yields Named x fun sql => 8 ≤ sql.level ∧ sql.Shaped may

/-- An item of the tree, and what is written for it has its parentheses. -/
structure Child.Writes (ok : Item → Prop) (may : Sql → Prop) (it : Child) : Prop where
  formed : it.item.Formed ok
  node : Yields Named it.node fun sql => sql.Value may ∧ sql.Minus (it.item.signed = true)
  query : Yields Named it.query fun query => query.Shaped may

section Parts

variable {ok : Item → Prop} {may : Sql → Prop} {it : Child} {args : List Child}

theorem AllShaped.weaken {level lower : Nat} (less : lower ≤ level) {sqls : List Sql} (shaped : AllShaped may level sqls) :
    AllShaped may lower sqls := by
  induction sqls with
  | nil => trivial
  | cons sql sqls ih => exact ⟨⟨Nat.le_trans less shaped.1.1, shaped.1.2⟩, ih shaped.2⟩

/-- A value whose minus sign is no cast one's. -/
theorem Child.Writes.signed (writes : it.Writes ok may) :
    Yields Named it.expr fun sql =>
      sql.Value may ∧ sql.Minus (it.item.signed = true ∧ it.item.isBoolType = false) := by
  refine .ite (fun plain => writes.node.imp fun sql both => ⟨both.1, fun tight => ?_⟩) fun _ =>
    writes.node.bind fun sql both => .pure ⟨⟨by simp [Sql.level], Nat.le_trans (by decide) both.1.1, both.1.2⟩,
      fun tight => by simp [Sql.level] at tight⟩
  obtain ⟨negative, isSigned⟩ := both.2 tight
  refine ⟨negative, isSigned, ?_⟩
  rcases Bool.or_eq_true_iff.mp plain with isField | other
  · cases item : it.item with
    | field _ _ =>
        rw [item] at isSigned
        cases isSigned
    | _ =>
        rw [item] at isField
        cases isField
  · simpa using other

theorem Child.Writes.value (writes : it.Writes ok may) : Yields Named it.expr fun sql => sql.Value may :=
  writes.signed.imp fun _ both => both.1

theorem Child.Writes.condition (writes : it.Writes ok may) : Yields Named it.condition fun sql => sql.Value may :=
  .ite (fun _ => writes.node.imp fun _ both => both.1) fun _ => .throw

theorem Child.Writes.branch (writes : it.Writes ok may) (result : Cls) :
    Yields Named (it.branch result) fun sql => sql.Value may :=
  .ite (fun _ => writes.value) fun _ => writes.value.bind fun _ value =>
    .pure ⟨by simp [Sql.level], Nat.le_trans (by decide) value.1, value.2⟩

/-- Items written one after another. -/
theorem each_shaped {all : List Child → GenM (List Sql)} {one : Child → GenM Sql} (nil : all [] = pure [])
    (cons : ∀ arg args, all (arg :: args) = do return (← one arg) :: (← all args))
    (each : ∀ arg ∈ args, Yields Named (one arg) fun sql => sql.Value may) :
    Yields Named (all args) fun sqls => AllShaped may 7 sqls ∧ sqls.length = args.length := by
  induction args with
  | nil =>
      rw [nil]
      exact .pure ⟨trivial, rfl⟩
  | cons arg args ih =>
      obtain ⟨first, rest⟩ := List.forall_mem_cons.mp each
      rw [cons]
      exact first.bind fun sql value => (ih rest).bind fun sqls others =>
        .pure ⟨⟨value, others.1⟩, congrArg (· + 1) others.2⟩

theorem argsCsv_shaped (writes : ∀ arg ∈ args, arg.Writes ok may) :
    Yields Named (argsCsv args) fun sqls => AllShaped may 7 sqls ∧ sqls.length = args.length :=
  each_shaped rfl (fun _ _ => rfl) fun arg member => (writes arg member).value

theorem conditions_shaped (writes : ∀ arg ∈ args, arg.Writes ok may) :
    Yields Named (conditions args) fun sqls => AllShaped may 7 sqls ∧ sqls.length = args.length :=
  each_shaped rfl (fun _ _ => rfl) fun arg member => (writes arg member).condition

theorem branchArgs_shaped (result : Cls) (writes : ∀ arg ∈ args, arg.Writes ok may) :
    Yields Named (branchArgs result args) fun sqls => AllShaped may 7 sqls ∧ sqls.length = args.length :=
  each_shaped rfl (fun _ _ => rfl) fun arg member => (writes arg member).branch result

theorem call_shaped {function : Function} {sqls : List Sql} (shaped : AllShaped may 7 sqls) :
    8 ≤ (Sql.call function sqls).level ∧ (Sql.call function sqls).Shaped may :=
  ⟨by simp [Sql.level], shaped.weaken (by decide)⟩

theorem elseArm_shaped {otherwise : Option Child} (writes : ∀ value ∈ otherwise, value.Writes ok may) (result : Cls) :
    Yields Named (elseArm result otherwise) fun arms => arms.Shaped may := by
  cases otherwise with
  | none => exact .pure trivial
  | some value =>
      exact ((writes value rfl).branch result).bind fun _ value => .pure ⟨Nat.le_trans (by decide) value.1, value.2⟩

theorem arms_shaped {test : Child → GenM Sql} {result : Cls} {otherwise : Option Child} {whens values : List Child}
    (tests : ∀ when ∈ whens, Yields Named (test when) fun sql => sql.Value may)
    (branches : ∀ value ∈ values, value.Writes ok may) (last : ∀ value ∈ otherwise, value.Writes ok may) :
    Yields Named (arms test result otherwise whens values) fun arms => arms.Shaped may := by
  induction whens generalizing values with
  | nil => exact elseArm_shaped last result
  | cons when whens ih =>
      cases values with
      | nil => exact elseArm_shaped last result
      | cons value values =>
          obtain ⟨firstTest, restTests⟩ := List.forall_mem_cons.mp tests
          obtain ⟨firstValue, restValues⟩ := List.forall_mem_cons.mp branches
          exact firstTest.bind fun _ here => (firstValue.branch result).bind fun _ value =>
            (ih restTests restValues).bind fun _ others => .pure ⟨⟨Nat.le_trans (by decide) here.1, here.2⟩,
              ⟨Nat.le_trans (by decide) value.1, value.2⟩, others⟩

theorem writes_getLast {odd : Prop} [Decidable odd] (writes : ∀ arg ∈ args, arg.Writes ok may) :
    ∀ arg ∈ (if odd then args.getLast? else none), arg.Writes ok may := by
  intro arg member
  split at member
  · exact writes arg (List.mem_of_getLast? member)
  · cases member

theorem writes_middle {n m : Nat} (writes : ∀ arg ∈ args, arg.Writes ok may) :
    ∀ arg ∈ (args.drop n).take m, arg.Writes ok may :=
  fun arg member => writes arg (List.mem_of_mem_drop (List.mem_of_mem_take member))

theorem caseSearched_shaped (f : Item) (writes : ∀ arg ∈ args, arg.Writes ok may) :
    Encloses may (caseSearched f args) :=
  .ite (fun _ => .throw) fun _ =>
    (arms_shaped (fun when member => (writes when (List.mem_of_mem_take member)).condition) (writes_middle writes)
      (writes_getLast writes)).bind fun _ shaped => .pure ⟨by simp [Sql.level], shaped⟩

theorem caseSimple_shaped (f : Item) (collation : Option Charset) {subject : Child}
    (writes : ∀ arg ∈ subject :: args, arg.Writes ok may) : Encloses may (caseSimple f collation subject args) := by
  obtain ⟨first, rest⟩ := List.forall_mem_cons.mp writes
  exact .read fun g _ => .ite (fun _ => .throw) fun _ => .ite (fun _ => .throw) fun _ => first.value.bind fun _ value =>
    (arms_shaped (fun when member => (rest when (List.mem_of_mem_take member)).value) (writes_middle rest)
      (writes_getLast rest)).bind fun _ shaped =>
        .pure ⟨by simp [Sql.level], ⟨Nat.le_trans (by decide) value.1, value.2⟩, shaped⟩

theorem arithmetic_shaped (f : Item) (op : Arithmetic) (writes : ∀ arg ∈ args, arg.Writes ok may) :
    Encloses may (arithmetic f op args) := by
  have tight : op.level + 1 ≤ 7 := by cases op <;> decide
  unfold arithmetic
  split
  · rename_i x y
    exact .ite (fun _ => .throw) fun _ => (writes x (by simp)).value.bind fun _ first =>
      (writes y (by simp)).value.bind fun _ second => .pure ⟨by simp [Sql.level],
        ⟨Nat.le_trans (Nat.le_of_succ_le tight) first.1, first.2⟩, Nat.le_trans tight second.1, second.2⟩
  · exact .throw

theorem abs_shaped (f : Item) (writes : ∀ arg ∈ args, arg.Writes ok may) : Encloses may (abs f args) := by
  unfold abs
  split
  · rename_i x
    exact .ite (fun _ => .throw) fun _ => (writes x (by simp)).value.bind fun _ value =>
      .pure (call_shaped ⟨value, trivial⟩)
  · exact .throw

theorem charLength_shaped (writes : ∀ arg ∈ args, arg.Writes ok may) : Encloses may (charLength args) := by
  unfold charLength
  split
  · rename_i x
    exact .ite (fun _ => .throw) fun _ => (writes x (by simp)).value.bind fun _ value =>
      .pure (call_shaped ⟨value, trivial⟩)
  · exact .throw

theorem coalesce_shaped (f : Item) (name : Function) (writes : ∀ arg ∈ args, arg.Writes ok may) :
    Encloses may (coalesce f name args) :=
  .ite (fun _ => .throw) fun _ => (branchArgs_shaped _ writes).bind fun _ both => .pure (call_shaped both.1)

theorem nullif_shaped {x y : Child} (first : x.Writes ok may) (second : y.Writes ok may) :
    Encloses may (nullif x y) :=
  .read fun _ _ => .ite (fun _ => .throw) fun _ =>
    (argsCsv_shaped (List.forall_mem_cons.mpr ⟨first, List.forall_mem_singleton.mpr second⟩)).bind fun _ both =>
      .pure (call_shaped both.1)

theorem ifFunc_shaped (f : Item) (writes : ∀ arg ∈ args, arg.Writes ok may) : Encloses may (ifFunc f args) := by
  unfold ifFunc
  split
  · rename_i test x y
    exact .ite (fun _ => .throw) fun _ => (writes test (by simp)).condition.bind fun _ first =>
      ((writes x (by simp)).branch _).bind fun _ second => ((writes y (by simp)).branch _).bind fun _ third =>
        .pure ⟨by simp [Sql.level], ⟨Nat.le_trans (by decide) first.1, first.2⟩,
          ⟨Nat.le_trans (by decide) second.1, second.2⟩, Nat.le_trans (by decide) third.1, third.2⟩
  · exact .throw

theorem some_sqls {sqls : List Sql} (some_ : args ≠ []) (length : sqls.length = args.length) : sqls ≠ [] := by
  rintro rfl
  exact some_ (List.length_eq_zero_iff.mp length.symm)

theorem concat_shaped (some_ : args ≠ []) (writes : ∀ arg ∈ args, arg.Writes ok may) : Encloses may (concat args) :=
  .ite (fun _ => (argsCsv_shaped writes).bind fun _ both =>
    .pure ⟨by simp [Sql.level], some_sqls some_ both.2, both.1.weaken (by decide)⟩) fun _ => .throw

theorem namedFunc_shaped (f : Item) (name : FuncName) (formed : name = .concat → args ≠ [])
    (writes : ∀ arg ∈ args, arg.Writes ok may) : Encloses may (namedFunc f name args) := by
  cases name with
  | plus | minus | mul | div => exact arithmetic_shaped f _ writes
  | abs => exact abs_shaped f writes
  | coalesce => exact coalesce_shaped f _ writes
  | ifnull => exact coalesce_shaped f _ writes
  | nullif =>
      unfold namedFunc
      dsimp only
      split
      · exact nullif_shaped (writes _ (by simp)) (writes _ (by simp))
      · exact nullif_shaped (writes _ (by simp)) (writes _ (by simp))
      · exact .throw
  | ifFunc => exact ifFunc_shaped f writes
  | charLength => exact charLength_shaped writes
  | concat => exact concat_shaped (formed rfl) writes
  | other => exact .throw

theorem signed_level (text : String) : 7 ≤ (if isSigned text then 7 else 9) ∧
    ((if isSigned text then 7 else 9) = 7 → isSigned text = true) := by
  cases isSigned text <;> decide

theorem integer_value (value : Int64) :
    (Sql.integer value).Value may ∧ (Sql.integer value).Minus (value < 0) := by
  obtain ⟨bound, minus⟩ := signed_level (toString value.toInt)
  refine ⟨⟨bound, trivial⟩, fun tight => ⟨minus tight, ?_⟩⟩
  rw [Int64.lt_iff_toInt_lt]
  exact isSigned_int (minus tight)

theorem number_value (n : Numeral) :
    (Sql.number n.text).Value may ∧ (Sql.number n.text).Minus (isSigned n.text = true) := by
  obtain ⟨bound, minus⟩ := signed_level n.text
  exact ⟨⟨bound, n.numberText⟩, fun tight => ⟨minus tight, minus tight⟩⟩

/-- Digits, with `.0` where they would be an integer's. -/
theorem pointed_value (n : Numeral) {pointed : Prop} [Decidable pointed]
    (whole : ¬ pointed → n.fraction = none ∧ n.exponent = none) :
    (Sql.number (if pointed then n.text else n.text ++ ".0")).Value may ∧
      (Sql.number (if pointed then n.text else n.text ++ ".0")).Minus (isSigned n.text = true) := by
  split
  · exact number_value n
  · obtain ⟨value, minus⟩ := @number_value may n.withPoint
    rw [n.text_withPoint (whole ‹_›).1 (whole ‹_›).2]
    refine ⟨value, fun tight => ?_⟩
    obtain ⟨negative, isSigned⟩ := minus tight
    rw [n.isSigned_text]
    exact ⟨negative, n.withPoint.isSigned_text.symm.trans isSigned⟩

theorem constant_shaped (attrs : Attrs) {value : Literal} (formed : value.Formed) :
    Yields Named (constant attrs value) fun sql => sql.Value may ∧ sql.Minus (value.signed = true) := by
  cases value with
  | int value =>
      obtain ⟨operand, minus⟩ := @integer_value may value
      exact .ite (fun _ => .throw) fun _ => .pure ⟨operand, fun tight => ⟨(minus tight).1, decide_eq_true (minus tight).2⟩⟩
  | real finite digits =>
      refine .ite (fun _ => .throw) fun isFinite => .pure ?_
      obtain ⟨n, rfl⟩ := formed (by simpa using isFinite)
      refine pointed_value n fun plain => ⟨n.fraction_none fun member => plain ?_, n.exponent_none fun member => plain ?_⟩
      · exact List.any_eq_true.mpr ⟨_, member, rfl⟩
      · exact List.any_eq_true.mpr ⟨_, member, rfl⟩
  | decimal digits =>
      refine .ite (fun _ => .throw) fun _ => .pure ?_
      obtain ⟨n, noExponent, rfl⟩ := formed
      exact pointed_value n fun plain => ⟨n.fraction_none fun member => plain (by simpa using member), noExponent⟩
  | string bytes datetime time =>
      exact .ite (fun _ => .throw) fun _ =>
        .pure ⟨⟨by simp [Sql.level], trivial⟩, fun tight => by simp [Sql.level] at tight⟩
  | temporal isTime packed zeroPart => exact .throw

theorem literal_shaped {it : Item} (formed : it.Formed ok) :
    Yields Named (literal it) fun sql => sql.Value may ∧ sql.Minus (it.signed = true) := by
  induction it using literal.induct with
  | case1 attrs => exact .pure ⟨⟨by simp [Sql.level], trivial⟩, fun tight => by simp [Sql.level] at tight⟩
  | case2 attrs value => exact constant_shaped attrs formed
  | case3 attrs type id target ih => exact ih formed
  | case4 it noNull noConst noRef =>
      unfold literal
      split
      · exact absurd rfl (noNull _)
      · exact absurd rfl (noConst _ _)
      · exact absurd rfl (noRef _ _ _ _)
      · exact .throw

theorem column_value {tableAlias : String} (valid : (aliasTok tableAlias).Valid) (name : String) :
    (Sql.column tableAlias name).Value may ∧ (Sql.column tableAlias name).level ≠ 7 :=
  ⟨⟨by simp [Sql.level], valid⟩, by simp [Sql.level]⟩

theorem field_shaped (f : Option Field) : Yields Named (field f) fun sql => sql.Value may ∧ sql.level ≠ 7 := by
  cases f with
  | none => exact .throw
  | some f =>
      refine .read fun g named => .ite (fun _ => .throw) fun _ => ?_
      split
      · exact .throw
      · rename_i tableAlias found
        exact .pure (column_value (named.aliases _ (Lookup.mem_of_lookup found)) f.name)

theorem reference_shaped (type : RefType) (id : ItemId) {target : Option Child}
    (writes : ∀ it ∈ target, it.Writes ok may) :
    Yields Named (reference type id target) fun sql =>
      sql.Value may ∧ sql.Minus (∃ it ∈ target, it.item.signed = true) := by
  refine .ite (fun _ => .throw) fun _ => ?_
  cases target with
  | none => exact .throw
  | some it =>
      refine .read fun g named => ?_
      split
      · rename_i tableAlias name found _
        obtain ⟨value, other⟩ := @column_value may _ (named.viewCols _ (Lookup.mem_of_lookup found)) name
        exact .pure ⟨value, fun tight => absurd tight other⟩
      · exact (writes it rfl).signed.imp fun _ both => 
          ⟨both.1, fun tight => ⟨(both.2 tight).1, it, rfl, (both.2 tight).2.1⟩⟩

theorem compare_shaped (op : Comparison) (handler : HandlerType) (collation : Option Charset) {x y : Child}
    (first : x.Writes ok may) (second : y.Writes ok may) : Encloses may (compare op handler collation x y) := by
  have compared {left right : Sql} (leftValue : left.Value may) (rightValue : right.Value may) :
      8 ≤ (Sql.paren (.compare op left right)).level ∧ (Sql.paren (.compare op left right)).Shaped may :=
    ⟨by simp [Sql.level], ⟨Nat.le_trans (by decide) leftValue.1, leftValue.2⟩, Nat.le_trans (by decide) rightValue.1,
      rightValue.2⟩
  unfold compare
  split
  · exact first.value.bind fun _ left => .pure (compared left (integer_value _).1)
  · exact second.value.bind fun _ right => .pure (compared (integer_value _).1 right)
  · exact .read fun _ _ => .ite (fun _ => first.value.bind fun _ left => second.value.bind fun _ right =>
      .pure (compared left right)) fun _ => .throw

theorem between_shaped (negated : Bool) (collation : Option Charset) {x low high : Child} (writes : x.Writes ok may)
    (lowWrites : low.Writes ok may) (highWrites : high.Writes ok may) :
    Encloses may (between negated collation x low high) := by
  have bounded {value least most : Sql} (isValue : value.Value may) (leastValue : least.Value may)
      (mostValue : most.Value may) : 8 ≤ (Sql.paren (.between negated value least most)).level ∧
        (Sql.paren (.between negated value least most)).Shaped may :=
    ⟨by simp [Sql.level], ⟨Nat.le_trans (by decide) isValue.1, isValue.2⟩,
      ⟨Nat.le_trans (by decide) leastValue.1, leastValue.2⟩, Nat.le_trans (by decide) mostValue.1, mostValue.2⟩
  unfold between
  split
  · exact writes.value.bind fun _ value => .pure (bounded value (integer_value _).1 (integer_value _).1)
  · exact .read fun _ _ => .ite (fun _ => writes.value.bind fun _ value => lowWrites.value.bind fun _ least =>
      highWrites.value.bind fun _ most => .pure (bounded value least most)) fun _ => .throw

theorem inValues_shaped (negated : Bool) (collation : Option Charset) {x : Child} {list : List Child}
    (writes : ∀ arg ∈ x :: list, arg.Writes ok may) : Encloses may (inValues negated collation x list) := by
  obtain ⟨first, rest⟩ := List.forall_mem_cons.mp writes
  refine .read fun g _ => .ite (fun _ => .throw) fun checked => .ite (fun _ => ?_) fun _ => .throw
  have some_ : list ≠ [] := by
    rintro rfl
    exact checked rfl
  exact first.value.bind fun _ value => (argsCsv_shaped rest).bind fun _ both =>
    .pure ⟨by simp [Sql.level], ⟨Nat.le_trans (by decide) value.1, value.2⟩, some_sqls some_ both.2,
      both.1.weaken (by decide)⟩

theorem like_shaped (negated : Bool) (collation : Option Charset) (escape : Char) {x pattern : Child}
    (writes : x.Writes ok may) (patternWrites : pattern.Writes ok may) :
    Encloses may (like negated collation escape x pattern) :=
  .read fun _ _ => .ite (fun _ => .throw) fun _ => .ite (fun _ => .throw) fun _ => writes.value.bind fun _ value =>
    (literal_shaped patternWrites.formed).bind fun _ both => .pure ⟨by simp [Sql.level],
      ⟨Nat.le_trans (by decide) value.1, value.2⟩, Nat.le_trans (by decide) both.1.1, both.1.2⟩

theorem inSubquery_shaped {left : Option Child} (unit : SelectUnit) {query : GenM Query}
    (writes : ∀ it ∈ left, it.Writes ok may) (shaped : Yields Named query fun query => query.Shaped may) :
    Encloses may (inSubquery left unit query) := by
  cases left with
  | none => exact .throw
  | some left =>
      exact .ite (fun _ => .throw) fun _ => .ite (fun _ => .throw) fun _ => .read fun _ _ =>
        (checkColumns_any _ _ _).bind fun _ _ => (writes left rfl).value.bind fun _ value => shaped.bind fun _ inside =>
          .pure ⟨by simp [Sql.level], ⟨Nat.le_trans (by decide) value.1, value.2⟩, inside⟩

theorem existsSubquery_shaped {query : GenM Query} (shaped : Yields Named query fun query => query.Shaped may) :
    Encloses may (existsSubquery query) := by
  have asked : Yields Named (modify fun g => { g with existsList := true } : GenM PUnit) fun _ => True :=
    .change fun _ named => ⟨named.aliases, named.viewCols⟩
  exact asked.bind fun _ _ => shaped.bind fun _ inside => .pure ⟨by simp [Sql.level], inside⟩

theorem inOptimizer_shaped (writes : ∀ arg ∈ args, arg.Writes ok may) : Encloses may (inOptimizer args) := by
  unfold inOptimizer
  split
  · rename_i left right
    have leftWrites : ∀ it ∈ some left, it.Writes ok may := by
      rintro _ ⟨⟩
      exact writes left (by simp)
    have rightWrites := writes right (by simp)
    split
    · rename_i type _ unit _
      cases type with
      | existsSubs => exact existsSubquery_shaped rightWrites.query
      | inSubs => exact inSubquery_shaped unit leftWrites rightWrites.query
      | singlerowSubs => exact .throw
      | other => exact .throw
    · exact .throw
  · exact .throw

theorem func_shaped (allows : Allows ok may) (f : Item) (variant : Bool) (type : FuncType)
    (formed : type.Formed ok (args.map Child.item)) (writes : ∀ arg ∈ args, arg.Writes ok may) :
    Encloses may (func f variant type args) := by
  refine .ite (fun _ => .throw) fun _ => ?_
  split
  · exact compare_shaped _ _ _ (writes _ (by simp)) (writes _ (by simp))
  · exact .throw
  · exact .throw
  · exact (writes _ (by simp)).value.bind fun _ value =>
      .pure ⟨by simp [Sql.level], Nat.le_trans (by decide) value.1, value.2⟩
  · exact .throw
  · exact (writes _ (by simp)).condition.bind fun _ value =>
      .pure ⟨by simp [Sql.level], Nat.le_trans (by decide) value.1, value.2⟩
  · exact .throw
  · exact between_shaped _ _ (writes _ (by simp)) (writes _ (by simp)) (writes _ (by simp))
  · exact .throw
  · exact inValues_shaped _ _ writes
  · exact .throw
  · exact like_shaped _ _ _ (writes _ (by simp)) (writes _ (by simp))
  · exact .throw
  · exact inOptimizer_shaped writes
  · rename_i x
    exact .ite (fun _ => .throw) fun _ => (writes x (by simp)).signed.bind fun sql both =>
      .pure ⟨by simp [Sql.level], allows x.item sql formed both.1.1 both.2, both.1.1, both.1.2⟩
  · exact .throw
  · exact caseSearched_shaped f writes
  · exact caseSimple_shaped f _ writes
  · exact .throw
  · rename_i name
    refine namedFunc_shaped f name (fun isConcat none => ?_) writes
    subst isConcat none
    exact formed rfl

theorem cond_shaped (type : CondType) (writes : ∀ arg ∈ args, arg.Writes ok may) : Encloses may (cond type args) := by
  refine (connective_any type).bind fun connective _ => .ite (fun _ => .throw) fun checked => ?_
  have some_ : args ≠ [] := by
    rintro rfl
    exact checked rfl
  have tight : connective.level + 1 ≤ 7 := by cases connective <;> decide
  exact (conditions_shaped writes).bind fun _ both =>
    .pure ⟨by simp [Sql.level], some_sqls some_ both.2, both.1.weaken tight⟩

theorem subselect_shaped (type : SubsType) {left : Option Child} (unit : SelectUnit) {query : GenM Query}
    (writes : ∀ it ∈ left, it.Writes ok may) (shaped : Yields Named query fun query => query.Shaped may) :
    Encloses may (subselect type left unit query) := by
  cases type with
  | singlerowSubs => exact shaped.bind fun _ inside => .pure ⟨by simp [Sql.level], inside⟩
  | existsSubs => exact existsSubquery_shaped shaped
  | inSubs => exact inSubquery_shaped unit writes shaped
  | other => exact .throw

theorem aggregate_shaped {x : Child} (aggregate : Aggregate) (distinct : Bool) (writes : x.Writes ok may) :
    Encloses may (do return .aggregate aggregate distinct (← x.expr)) :=
  writes.value.bind fun _ value => .pure ⟨by simp [Sql.level], Nat.le_trans (by decide) value.1, value.2⟩

theorem sum_shaped (func : SumFunc) (overWindow : Bool) (writes : ∀ arg ∈ args, arg.Writes ok may) :
    Encloses may (sum func args overWindow) := by
  refine .read fun g _ => ?_
  split
  · exact .ite (fun _ => .pure ⟨by simp [Sql.level], trivial⟩) fun _ => aggregate_shaped _ _ (writes _ (by simp))
  · exact .throw
  · exact .ite (fun _ => .throw) fun _ => aggregate_shaped _ _ (writes _ (by simp))
  · exact .throw
  · exact .ite (fun _ => .throw) fun _ => aggregate_shaped _ _ (writes _ (by simp))
  · exact .throw
  · exact .ite (fun _ => .throw) fun _ => .ite (fun _ => .throw) fun _ => aggregate_shaped _ _ (writes _ (by simp))
  · exact .throw
  · exact .ite (fun _ => .throw) fun _ => aggregate_shaped _ _ (writes _ (by simp))
  · exact .throw
  · exact .ite (fun _ => .throw) fun _ => aggregate_shaped _ _ (writes _ (by simp))
  · exact .ite (fun _ => .throw) fun _ => aggregate_shaped _ _ (writes _ (by simp))
  · exact .throw
  · exact .throw
  · exact .throw

/-- The keys of ORDER BY, GROUP BY and PARTITION BY. -/
theorem orderList_shaped (directions : Bool) {keys : List OrderChild} (writes : ∀ key ∈ keys, key.child.Writes ok may) :
    Yields Named (orderList directions keys) fun sorted => KeysShaped may sorted ∧ (keys = [] → sorted = []) := by
  induction keys with
  | nil => exact .pure ⟨trivial, fun _ => rfl⟩
  | cons key keys ih =>
      obtain ⟨first, rest⟩ := List.forall_mem_cons.mp writes
      exact .read fun _ _ => .ite (fun _ => .throw) fun _ => first.value.bind fun _ value => (ih rest).bind fun _ others =>
        .pure ⟨⟨⟨Nat.le_trans (by decide) value.1, value.2⟩, others.1⟩, fun none => by cases none⟩

theorem windowCall_shaped (function : WindowFunction) {sqls : List Sql} (shaped : AllShaped may 7 sqls) :
    8 ≤ (Sql.windowCall function sqls).level ∧ (Sql.windowCall function sqls).Shaped may :=
  ⟨by simp [Sql.level], shaped.weaken (by decide)⟩

theorem windowFunction_shaped (func : SumFunc) (frame : Option Frame) (writes : ∀ arg ∈ args, arg.Writes ok may) :
    Yields Named (windowFunction func args frame) fun function => 8 ≤ function.2.level ∧ function.2.Shaped may := by
  unfold windowFunction
  split
  · exact .pure (windowCall_shaped _ trivial)
  · exact .pure (windowCall_shaped _ trivial)
  · exact .pure (windowCall_shaped _ trivial)
  · exact .ite (fun _ => .throw) fun _ => (argsCsv_shaped writes).bind fun _ both => .pure (windowCall_shaped _ both.1)
  · exact .ite (fun _ => .throw) fun _ => (argsCsv_shaped writes).bind fun _ both => .pure (windowCall_shaped _ both.1)
  · exact .ite (fun _ => .throw) fun _ => (sum_shaped func true writes).bind fun _ shaped => .pure shaped

theorem window_shaped (func : SumFunc) {partition order : List OrderChild} (frame : Option Frame)
    (writes : ∀ arg ∈ args, arg.Writes ok may) (partitioned : ∀ key ∈ partition, key.child.Writes ok may)
    (ordered : ∀ key ∈ order, key.child.Writes ok may) : Encloses may (window func args partition order frame) := by
  refine (windowFunction_shaped func frame writes).bind fun function tight =>
    (orderList_shaped false partitioned).bind fun _ left => (orderList_shaped true ordered).bind fun _ right => ?_
  split
  · exact .ite (fun _ => .throw) fun _ => (frameBound_any _).bind fun _ _ => (frameBound_any _).bind fun _ _ =>
      .pure ⟨by simp [Sql.level], tight, left.1, right.1⟩
  · exact .pure ⟨by simp [Sql.level], tight, left.1, right.1⟩

end Parts

/-- A table of a join list, with what its ON and its parts write. -/
structure TableChild.Writes (ok : Item → Prop) (may : Sql → Prop) (t : TableChild) : Prop where
  on : ∀ it ∈ t.on, it.Writes ok may
  joinList : Yields Named t.joinList fun result => SourceShaped may result.1 ∧ ∀ it ∈ result.2, it.Writes ok may
  tableRef : Yields Named t.tableRef fun result => result.1.Shaped may ∧ ∀ it ∈ result.2, it.Writes ok may

structure SelectChild.Writes (ok : Item → Prop) (may : Sql → Prop) (parts : SelectChild) : Prop where
  from_ : Yields Named parts.from_ fun result => SourceShaped may result.1 ∧ ∀ it ∈ result.2, it.Writes ok may
  some_ : parts.items ≠ []
  items : ∀ it ∈ parts.items, it.Writes ok may
  filter : ∀ it ∈ parts.filter, it.Writes ok may
  group : ∀ key ∈ parts.group, key.child.Writes ok may
  having : ∀ it ∈ parts.having, it.Writes ok may
  order : ∀ key ∈ parts.order, key.child.Writes ok may

/-- A SELECT of a query expression, that without an order and a limit is one
that may be a leg. -/
def SelectGen.Writes (may : Sql → Prop) (leg : SelectGen) : Prop :=
  ∀ names cols, Yields Named (leg.write names cols) fun query =>
    query.Shaped may ∧ (leg.select.orderIsEmpty = true → leg.select.flags.limit = none → query.isLeg = true)

section Selects

variable {ok : Item → Prop} {may : Sql → Prop}

theorem optionalCondition_shaped {it : Option Child} (writes : ∀ child ∈ it, child.Writes ok may) :
    Yields Named (optionalCondition it) fun sqls => AllShaped may 7 sqls := by
  cases it with
  | none => exact .pure trivial
  | some child => exact (writes child rfl).condition.bind fun _ value => .pure ⟨value, trivial⟩

theorem baseRef_shaped (id : TableId) (name : String) :
    Yields Named (baseRef id name) fun source => source.Shaped may := by
  refine .read fun g _ => ?_
  have valid := @alias_valid "t" 't' rfl (.inl rfl) g.nextAlias
  have aliased : Yields Named (modify fun g' => { g' with
      nextAlias := g'.nextAlias + 1, aliases := (id, "t" ++ toString g.nextAlias) :: g'.aliases } : GenM PUnit)
      fun _ => True :=
    .change fun _ named => ⟨List.forall_mem_cons.mpr ⟨valid, named.aliases⟩, named.viewCols⟩
  exact aliased.bind fun _ _ => .pure valid

theorem joins_append {first rest : List Joined} (firstShaped : JoinsShaped may first) (restShaped : JoinsShaped may rest) :
    JoinsShaped may (first ++ rest) := by
  induction first with
  | nil => exact restShaped
  | cons joined first ih => exact ⟨firstShaped.1, ih firstShaped.2⟩

theorem source_append {first rest : List Joined} (firstShaped : SourceShaped may first)
    (restShaped : JoinsShaped may rest) : SourceShaped may (first ++ rest) := by
  cases first with
  | nil => exact firstShaped.elim
  | cons joined first =>
      obtain ⟨join, source, on⟩ := joined
      exact ⟨firstShaped.1, joins_append firstShaped.2 restShaped⟩

/-- All tables from the first on, or those that are joined to it. -/
def TablesShaped (may : Sql → Prop) (first : Bool) (joined : List Joined) : Prop :=
  if first then SourceShaped may joined else JoinsShaped may joined

theorem joinTables_shaped (first : Bool) {tables : List TableChild} (some_ : first = true → tables ≠ [])
    (writes : ∀ t ∈ tables, t.Writes ok may) :
    Yields Named (joinTables first tables) fun result =>
      TablesShaped may first result.1 ∧ ∀ it ∈ result.2, it.Writes ok may := by
  induction tables generalizing first with
  | nil =>
      cases first with
      | true => exact absurd rfl (some_ rfl)
      | false => exact .pure ⟨trivial, fun _ member => absurd member List.not_mem_nil⟩
  | cons t tables ih =>
      obtain ⟨here, rest⟩ := List.forall_mem_cons.mp writes
      have later := ih false (fun isFirst => by cases isFirst) rest
      refine .ite (fun _ => .throw) fun _ => .ite (fun _ => .throw) fun _ => .ite (fun nested => ?_) fun _ => ?_
      · have isFirst : first = true := (Bool.and_eq_true_iff.mp (Bool.and_eq_true_iff.mp nested).1).1
        subst isFirst
        exact here.joinList.bind fun _ both => later.bind fun _ more =>
          .pure ⟨source_append both.1 more.1, List.forall_mem_append.mpr ⟨both.2, more.2⟩⟩
      · refine here.tableRef.bind fun result both => ?_
        obtain ⟨source, merged⟩ := result
        dsimp only
        split
        · rename_i on isOn
          cases first with
          | true => exact .throw
          | false =>
              exact (here.on on isOn).condition.bind fun _ value => (optionalCondition_shaped both.2).bind fun _ merged =>
                later.bind fun _ more => .pure ⟨⟨⟨by cases t.outer <;> cases t.on.isSome <;> rfl, both.1,
                  ⟨Nat.le_trans (by decide) value.1, value.2⟩, merged.weaken (by decide)⟩, more.1⟩, more.2⟩
        · refine .ite (fun _ => .throw) fun _ => later.bind fun _ more => .pure ⟨?_, ?_⟩
          · cases first with
            | true => exact ⟨⟨rfl, rfl, both.1⟩, more.1⟩
            | false => exact ⟨⟨by cases t.outer <;> cases t.on.isSome <;> rfl, both.1, trivial⟩, more.1⟩
          · exact List.forall_mem_append.mpr ⟨fun it member => both.2 it (Option.mem_toList.mp member), more.2⟩

theorem joinList_shaped {tables : List TableChild} (writes : ∀ t ∈ tables, t.Writes ok may) :
    Yields Named (joinList tables) fun result => SourceShaped may result.1 ∧ ∀ it ∈ result.2, it.Writes ok may := by
  refine .ite (fun _ => .throw) fun some_ => joinTables_shaped true (fun _ none => some_ ?_) fun t member =>
    writes t (List.mem_reverse.mp member)
  rw [List.reverse_eq_nil_iff.mp none]
  rfl

theorem derivedRef_shaped (id : TableId) (selects : List Select) (recursive outerInner : Bool)
    (columns : Option (List DerivedColumn)) {filter : Option Child} {unit : Option (List String) → GenM Query}
    (writes : ∀ it ∈ filter, it.Writes ok may)
    (shaped : ∀ names, Yields Named (unit names) fun query => query.Shaped may) :
    Yields Named (derivedRef id selects recursive outerInner columns filter unit) fun result =>
      result.1.Shaped may ∧ ∀ it ∈ result.2, it.Writes ok may := by
  refine .read fun _ _ => ?_
  split
  · exact (baseRef_shaped _ _).bind fun _ below => .pure ⟨below, writes⟩
  · split
    · exact .throw
    · rename_i columns
      refine .read fun g _ => ?_
      have valid := @alias_valid "d" 'd' rfl (.inr rfl) g.nextAlias
      have seen : ∀ entry ∈ columns.filterMap (fun column => column.item.map fun item =>
          (item, "d" ++ toString g.nextAlias, column.name)), (aliasTok entry.2.1).Valid := by
        intro entry member
        obtain ⟨column, -, isEntry⟩ := List.mem_filterMap.mp member
        obtain ⟨item, -, rfl⟩ := Option.map_eq_some_iff.mp isEntry
        exact valid
      have aliased : Yields Named (modify fun g' => { g' with
          nextAlias := g'.nextAlias + 1, aliases := (id, "d" ++ toString g.nextAlias) :: g'.aliases,
          viewCols := (columns.filterMap fun column => column.item.map fun item =>
            (item, "d" ++ toString g.nextAlias, column.name)).reverse ++ g'.viewCols } : GenM PUnit) fun _ => True :=
        .change fun _ named => ⟨List.forall_mem_cons.mpr ⟨valid, named.aliases⟩,
          List.forall_mem_append.mpr ⟨fun entry member => seen entry (List.mem_reverse.mp member), named.viewCols⟩⟩
      exact aliased.bind fun _ _ => (shaped _).bind fun _ below =>
        .pure ⟨⟨below, valid⟩, fun _ member => by cases member⟩

theorem outputValue_shaped {it : Child} (writes : it.Writes ok may) (distinct : Bool) (cols : Option (List Cls))
    (n : Nat) : Yields Named (outputValue distinct cols n it) fun sql => sql.Value may := by
  cases cols with
  | none => exact writes.value
  | some cols =>
      unfold outputValue
      dsimp only
      split
      · exact .throw
      · exact .ite (fun _ => .throw) fun _ => .ite (fun _ => .throw) fun _ => writes.branch _

theorem outputs_shaped (distinct : Bool) (names : Option (List String)) (cols : Option (List Cls)) (n : Nat)
    {items : List Child} (writes : ∀ it ∈ items, it.Writes ok may) :
    Yields Named (outputs distinct names cols n items) fun list =>
      OutputsShaped may list ∧ list.length = items.length := by
  induction items generalizing n with
  | nil => exact .pure ⟨trivial, rfl⟩
  | cons it items ih =>
      obtain ⟨first, rest⟩ := List.forall_mem_cons.mp writes
      exact .read fun _ _ => .ite (fun _ => .throw) fun _ => .ite (fun _ => .throw) fun _ =>
        (outputValue_shaped first distinct cols n).bind fun _ value => (outputName_any names _ n).bind fun _ _ =>
          (ih (n + 1) rest).bind fun _ others =>
            .pure ⟨⟨⟨Nat.le_trans (by decide) value.1, value.2⟩, others.1⟩, congrArg (· + 1) others.2⟩

theorem selectList_shaped (anyRow : Bool) (names : Option (List String)) (cols : Option (List Cls)) (flags : SelectFlags)
    {items : List Child} (some_ : items ≠ []) (writes : ∀ it ∈ items, it.Writes ok may) :
    Yields Named (selectList anyRow names cols flags items) fun list => ListShaped may list := by
  refine .ite (fun _ => .pure trivial) fun _ => (outputs_shaped flags.distinct names cols 0 writes).map fun list both =>
    ⟨?_, both.1⟩
  rintro rfl
  exact some_ (List.length_eq_zero_iff.mp both.2.symm)

theorem sortKeys_writes (top : Bool) (flags : SelectFlags) {parts : SelectChild} (writes : parts.Writes ok may) :
    ∀ key ∈ sortKeys top flags parts, key.child.Writes ok may := by
  unfold sortKeys
  split
  · exact writes.order
  · split
    · exact writes.group
    · exact fun key member => absurd member List.not_mem_nil

theorem head_shaped {sqls : List Sql} (shaped : AllShaped may 7 sqls) : OptionShaped may sqls.head? := by
  cases sqls with
  | nil => trivial
  | cons sql sqls => exact ⟨Nat.le_trans (by decide) shaped.1.1, shaped.1.2⟩

theorem limit_none (params : Option LimitParams) :
    Yields Named (limit params) fun rows => params = none → rows = none := by
  cases params with
  | none => exact .pure fun _ => rfl
  | some params => exact (limit_any (some params)).imp fun _ _ none => by cases none

theorem selectParts_shaped (top : Bool) (names : Option (List String)) (cols : Option (List Cls)) (flags : SelectFlags)
    {parts : SelectChild} (writes : parts.Writes ok may) :
    Yields Named (selectParts top names cols flags parts) fun query =>
      query.Shaped may ∧ (top = false → parts.order = [] → flags.limit = none → query.isLeg = true) := by
  have cleared : Yields Named (modify fun g => { g with existsList := false } : GenM PUnit) fun _ => True :=
    .change fun _ named => ⟨named.aliases, named.viewCols⟩
  refine .ite (fun _ => .throw) fun _ => .ite (fun _ => .throw) fun _ => .read fun g _ => cleared.bind fun _ _ =>
    .ite (fun _ => .throw) fun _ => .ite (fun _ => .throw) fun _ => .ite (fun _ => .throw) fun _ =>
      writes.from_.bind fun result tables => ?_
  obtain ⟨joined, merged⟩ := result
  have filters : ∀ it ∈ parts.filter.toList ++ merged, it.Writes ok may :=
    List.forall_mem_append.mpr ⟨fun it member => writes.filter it (Option.mem_toList.mp member), tables.2⟩
  refine (selectList_shaped _ names cols flags writes.some_ writes.items).bind fun _ listed =>
    (conditions_shaped filters).bind fun _ filtered => (orderList_shaped false writes.group).bind fun _ grouped =>
      (optionalCondition_shaped writes.having).bind fun _ had =>
        (orderList_shaped true (sortKeys_writes top flags writes)).bind fun _ sorted =>
          (limit_none flags.limit).bind fun _ noRows => .pure ⟨⟨listed, tables.1, filtered.1.weaken (by decide),
            grouped.1, head_shaped had, sorted.1⟩, fun inner noOrder noLimit => ?_⟩
  have noKeys : sortKeys top flags parts = [] := by simp [sortKeys, inner, noOrder, noLimit]
  rw [sorted.2 noKeys, noRows noLimit]
  rfl

theorem legQuery_shaped {leg : SelectGen} (writes : leg.Writes may) (names : Option (List String)) (cols : List Cls) :
    Yields Named (legQuery names cols leg) fun query => query.isLeg = true ∧ query.Shaped may := by
  refine .ite (fun _ => .throw) fun plain => .ite (fun _ => .throw) fun _ => (writes names (some cols)).imp fun _ both =>
    ⟨both.2 ?_ ?_, both.1⟩
  · simp_all
  · simp_all

theorem laterLegs_shaped (cols : List Cls) {legs : List SelectGen} (writes : ∀ leg ∈ legs, leg.Writes may) :
    Yields Named (laterLegs cols legs) fun rest => LegsShaped may rest ∧ rest.length = legs.length := by
  induction legs with
  | nil => exact .pure ⟨trivial, rfl⟩
  | cons leg legs ih =>
      obtain ⟨first, rest⟩ := List.forall_mem_cons.mp writes
      exact (setOp_any _).bind fun _ _ => (legQuery_shaped first none cols).bind fun _ below => (ih rest).bind
        fun _ others => .pure ⟨⟨below, others.1⟩, congrArg (· + 1) others.2⟩

theorem unitParts_shaped (names : Option (List String)) (recursive : Bool) (types : List Item) (fields : Nat)
    (order : List LegsOrder) (withTies : Bool) (rows : Option LimitParams) {selects : List SelectGen}
    (writes : ∀ select ∈ selects, select.Writes may) :
    Yields Named (unitParts names recursive types fields order withTies rows selects) fun query => query.Shaped may := by
  have cleared : Yields Named (modify fun g => { g with existsList := false } : GenM PUnit) fun _ => True :=
    .change fun _ named => ⟨named.aliases, named.viewCols⟩
  unfold unitParts
  split
  · exact .throw
  · exact (writes _ (by simp) names none).imp fun _ both => both.1
  · rename_i first legs several
    obtain ⟨firstWrites, legsWrite⟩ := List.forall_mem_cons.mp writes
    refine .ite (fun _ => .throw) fun _ => cleared.bind fun _ _ => (legTypes_any _ types).bind fun cols _ =>
      (legQuery_shaped firstWrites names cols).bind fun head below =>
        (laterLegs_shaped cols legsWrite).bind fun rest both => .ite (fun _ => .throw) fun _ =>
          (legsOrder_any names cols.length fields order).bind fun _ _ => (limit_any rows).bind fun _ _ =>
            .pure ⟨below, ?_, both.1⟩
    rintro rfl
    exact several (List.length_eq_zero_iff.mp both.2.symm)

end Selects

section Walk

variable {ok : Item → Prop} {may : Sql → Prop}

theorem Encloses.node {x : GenM Sql} (encloses : Encloses may x) (it : Item) :
    Yields Named x fun sql => sql.Value may ∧ sql.Minus (it.signed = true) :=
  encloses.imp fun _ both => ⟨⟨Nat.le_trans (by decide) both.1, both.2⟩, fun tight => by omega⟩

mutual

theorem node_shaped (allows : Allows ok may) : (it : Item) → it.Formed ok →
    Yields Named (node it) fun sql => sql.Value may ∧ sql.Minus (it.signed = true)
  | .field _ f, _ => (field_shaped f).imp fun _ both => ⟨both.1, fun tight => absurd tight both.2⟩
  | .ref _ type id target, formed => by
      refine (reference_shaped type id (optional_writes allows target formed)).imp fun _ both =>
        ⟨both.1, fun tight => ?_⟩
      obtain ⟨negative, child, isTarget, signed⟩ := both.2 tight
      cases target with
      | none => cases isTarget
      | some it =>
          cases isTarget
          exact ⟨negative, signed⟩
  | .const attrs value, formed => literal_shaped formed
  | .null attrs, formed => literal_shaped formed
  | .param _, _ => .throw
  | .func attrs variant type args, ⟨formed, argsFormed⟩ =>
      (func_shaped allows _ variant type (by rw [children_items]; exact formed)
        (children_write allows args argsFormed)).node _
  | .cond _ type args, formed => (cond_shaped type (children_write allows args formed)).node _
  | .sum _ f args, formed => (sum_shaped f false (children_write allows args formed)).node _
  | .window _ f args partition order frame, ⟨argsFormed, partitioned, ordered⟩ =>
      (window_shaped f frame (children_write allows args argsFormed) (orders_write allows partition partitioned)
        (orders_write allows order ordered)).node _
  | .subselect _ type left unit, ⟨leftFormed, unitFormed⟩ =>
      (subselect_shaped type unit (optional_writes allows left leftFormed)
        (unit_shaped allows none unit unitFormed)).node _
  | .other _, _ => .throw

theorem query_shaped (allows : Allows ok may) : (it : Item) → it.Formed ok →
    Yields Named (query it) fun query => query.Shaped may
  | .subselect _ _ _ unit, formed => unit_shaped allows none unit formed.2
  | .field _ _, _ | .ref _ _ _ _, _ | .const _ _, _ | .null _, _ | .param _, _ | .func _ _ _ _, _
  | .cond _ _ _, _ | .sum _ _ _, _ | .window _ _ _ _ _ _, _ | .other _, _ => .throw

theorem optional_writes (allows : Allows ok may) : (it : Option Item) → OptionFormed ok it →
    ∀ child ∈ optional it, child.Writes ok may
  | none, _ => fun child member => by cases member
  | some it, formed => fun child member => by
      cases member
      exact ⟨formed, node_shaped allows it formed, query_shaped allows it formed⟩

theorem children_write (allows : Allows ok may) : (items : List Item) → ItemsFormed ok items →
    ∀ child ∈ children items, child.Writes ok may
  | [], _ => fun child member => by cases member
  | it :: items, ⟨here, rest⟩ =>
      List.forall_mem_cons.mpr
        ⟨⟨here, node_shaped allows it here, query_shaped allows it here⟩, children_write allows items rest⟩

theorem orders_write (allows : Allows ok may) : (keys : List Order) → OrdersFormed ok keys →
    ∀ key ∈ orderChildren keys, key.child.Writes ok may
  | [], _ => fun key member => by cases member
  | .mk it descending :: keys, ⟨here, rest⟩ =>
      List.forall_mem_cons.mpr
        ⟨⟨here, node_shaped allows it here, query_shaped allows it here⟩, orders_write allows keys rest⟩

theorem select_shaped (allows : Allows ok may) (top : Bool) (names : Option (List String)) (cols : Option (List Cls)) :
    (select : Select) → select.Formed ok → Yields Named (Select.write top names cols select) fun query =>
      query.Shaped may ∧ (top = false → select.orderIsEmpty = true → select.flags.limit = none → query.isLeg = true)
  | .mk flags tables items filter groupList having orderList,
      ⟨tablesFormed, ⟨some_, itemsFormed⟩, filterFormed, groupFormed, havingFormed, orderFormed⟩ => by
      have someChildren : children items ≠ [] := by
        cases items with
        | nil => exact absurd rfl some_
        | cons it items => exact List.cons_ne_nil _ _
      refine (selectParts_shaped top names cols flags
        { from_ := joinList_shaped (tables_write allows tables tablesFormed)
          some_ := someChildren
          items := children_write allows items itemsFormed
          filter := optional_writes allows filter filterFormed
          group := orders_write allows groupList groupFormed
          having := optional_writes allows having havingFormed
          order := orders_write allows orderList orderFormed }).imp fun _ both =>
            ⟨both.1, fun inner noOrder => both.2 inner ?_⟩
      cases orderList with
      | nil => rfl
      | cons key keys => cases noOrder

theorem selectGens_write (allows : Allows ok may) : (selects : List Select) → SelectsFormed ok selects →
    ∀ select ∈ selectGens selects, select.Writes may
  | [], _ => fun select member => by cases member
  | select :: selects, ⟨here, rest⟩ => List.forall_mem_cons.mpr
      ⟨fun names cols => (select_shaped allows false names cols select here).imp fun _ both => ⟨both.1, both.2 rfl⟩,
        selectGens_write allows selects rest⟩

theorem unit_shaped (allows : Allows ok may) (names : Option (List String)) : (unit : SelectUnit) → unit.Formed ok →
    Yields Named (SelectUnit.write names unit) fun query => query.Shaped may
  | .mk selects recursive types fields order withTies rows, formed =>
      unitParts_shaped names recursive types fields order withTies rows (selectGens_write allows selects formed)

theorem firstFilter_writes (allows : Allows ok may) : (selects : List Select) → SelectsFormed ok selects →
    ∀ child ∈ firstFilter selects, child.Writes ok may
  | [], _ => fun child member => by cases member
  | .mk _ _ _ filter _ _ _ :: _, ⟨⟨_, _, formed, _⟩, _⟩ => optional_writes allows filter formed

theorem tables_write (allows : Allows ok may) : (tables : List TableList) → TablesFormed ok tables →
    ∀ t ∈ tableChildren tables, t.Writes ok may
  | [], _ => fun t member => by cases member
  | .mk kind on outer semiJoin :: tables, ⟨⟨kindFormed, onFormed⟩, rest⟩ =>
      List.forall_mem_cons.mpr ⟨⟨optional_writes allows on onFormed, joinTables_shaped_kind allows kind kindFormed,
        ref_shaped allows outer kind kindFormed⟩, tables_write allows tables rest⟩

theorem joinTables_shaped_kind (allows : Allows ok may) : (kind : TableKind) → kind.Formed ok →
    Yields Named (TableKind.joinTables kind) fun result =>
      SourceShaped may result.1 ∧ ∀ it ∈ result.2, it.Writes ok may
  | .nested tables, formed => joinList_shaped (tables_write allows tables formed)
  | .base _ _, _ | .derived _ _ _ _, _ | .unopened, _ => .throw

theorem ref_shaped (allows : Allows ok may) (outer : Bool) : (kind : TableKind) → kind.Formed ok →
    Yields Named (TableKind.ref outer kind) fun result => result.1.Shaped may ∧ ∀ it ∈ result.2, it.Writes ok may
  | .derived id (.mk selects recursive types fields order withTies rows) columns embeddedOuter, formed => by
      have written := derivedRef_shaped id selects recursive (outer || embeddedOuter) columns
        (firstFilter_writes allows selects formed) fun names =>
          unitParts_shaped names recursive types fields order withTies rows (selectGens_write allows selects formed)
      exact written
  | .nested _, _ => .throw
  | .unopened, _ => .throw
  | .base id name, _ => (baseRef_shaped id name).bind fun _ below => .pure ⟨below, fun _ member => by cases member⟩

end

end Walk

end StoolapMariadb.SqlGen
