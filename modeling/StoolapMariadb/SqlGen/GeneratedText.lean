import StoolapMariadb.Lib.ExceptList
import StoolapMariadb.SqlGen.MinusSigns
import StoolapMariadb.SqlGen.Parentheses
import StoolapMariadb.SqlGen.Update

namespace StoolapMariadb.SqlGen

/-! The text of every generated statement reads back as what it means, but where
a NEG_FUNC's operand has a minus sign of its own. -/

open StateExcept

section Checks

variable {may : Sql → Prop} {value tooLong : Sql}

theorem guardOverflow_shaped : 1 ≤ guardOverflow.level ∧ guardOverflow.Shaped may :=
  ⟨by decide, ⟨Nat.le_trans (by decide) (@integer_value may _).1.1, trivial⟩,
    Nat.le_trans (by decide) (@integer_value may _).1.1, trivial⟩

/-- A value in parentheses is any operator's operand. -/
theorem rangeCheck_shaped (least most : Int64) (operand : 5 ≤ value.level) (shaped : value.Shaped may) :
    (rangeCheck value least most).Value may := by
  have compared (op : Comparison) (bound : Int64) :
      2 ≤ (Sql.compare op value (.integer bound)).level ∧ (Sql.compare op value (.integer bound)).Shaped may :=
    ⟨by simp [Sql.level], ⟨operand, shaped⟩, Nat.le_trans (by decide) (@integer_value may bound).1.1, trivial⟩
  exact ⟨by simp [rangeCheck, Sql.level], ⟨by simp [Sql.level, Connective.level], List.cons_ne_nil _ _,
    compared .lt least, compared .gt most, trivial⟩, guardOverflow_shaped, Nat.le_trans (by decide) operand, shaped⟩

theorem lengthRest_shaped (length : Nat) (operand : 1 ≤ value.level) (shaped : value.Shaped may) :
    5 ≤ (lengthRest value length).level ∧ (lengthRest value length).Shaped may := by
  have start : 1 ≤ (Sql.arithmetic .add (.integer (Int64.ofNat length)) (.integer 1)).level ∧
      (Sql.arithmetic .add (.integer (Int64.ofNat length)) (.integer 1)).Shaped may :=
    ⟨by simp [Sql.level, Arithmetic.level], ⟨Nat.le_trans (by decide) (@integer_value may _).1.1, trivial⟩,
      Nat.le_trans (by decide) (@integer_value may _).1.1, trivial⟩
  have replaced {rest : Sql} (inside : 1 ≤ rest.level ∧ rest.Shaped may) (space : UInt8) :
      1 ≤ (Sql.call .replace [rest, .text [space], .text []]).level ∧
        (Sql.call .replace [rest, .text [space], .text []]).Shaped may :=
    ⟨by simp [Sql.level], inside, ⟨by simp [Sql.level], trivial⟩, ⟨by simp [Sql.level], trivial⟩, trivial⟩
  have first : 1 ≤ (Sql.call .substr [value, .arithmetic .add (.integer (Int64.ofNat length)) (.integer 1)]).level ∧
      (Sql.call .substr [value, .arithmetic .add (.integer (Int64.ofNat length)) (.integer 1)]).Shaped may :=
    ⟨by simp [Sql.level], ⟨operand, shaped⟩, start, trivial⟩
  exact ⟨by simp [lengthRest, Sql.level],
    (replaced (replaced (replaced (replaced (replaced (replaced first _) _) _) _) _) _).2⟩

theorem lengthCheck_shaped (length : Nat) (operand : 5 ≤ value.level) (shaped : value.Shaped may)
    (otherwise : 1 ≤ tooLong.level ∧ tooLong.Shaped may) : (lengthCheck value length tooLong).Value may := by
  have whole : 1 ≤ value.level := Nat.le_trans (by decide) operand
  have isNull : 2 ≤ (Sql.isNull false value).level ∧ (Sql.isNull false value).Shaped may :=
    ⟨by simp [Sql.level], operand, shaped⟩
  have fits : 2 ≤ (Sql.compare .le (.call .charLength [value]) (.integer (Int64.ofNat length))).level ∧
      (Sql.compare .le (.call .charLength [value]) (.integer (Int64.ofNat length))).Shaped may :=
    ⟨by simp [Sql.level], ⟨by simp [Sql.level], ⟨whole, shaped⟩, trivial⟩,
      Nat.le_trans (by decide) (@integer_value may _).1.1, trivial⟩
  have blank : 1 ≤ (Sql.compare .eq (lengthRest value length) (.text [])).level ∧
      (Sql.compare .eq (lengthRest value length) (.text [])).Shaped may :=
    ⟨by simp [Sql.level], lengthRest_shaped length whole shaped, by simp [Sql.level], trivial⟩
  have cut : 1 ≤ (Sql.call .substr [value, .integer 1, .integer (Int64.ofNat length)]).level ∧
      (Sql.call .substr [value, .integer 1, .integer (Int64.ofNat length)]).Shaped may :=
    ⟨by simp [Sql.level], ⟨whole, shaped⟩, ⟨Nat.le_trans (by decide) (@integer_value may _).1.1, trivial⟩,
      ⟨Nat.le_trans (by decide) (@integer_value may _).1.1, trivial⟩, trivial⟩
  exact ⟨by simp [lengthCheck, Sql.level],
    ⟨by simp [Sql.level, Connective.level], List.cons_ne_nil _ _, isNull, fits, trivial⟩, ⟨whole, shaped⟩,
    blank, cut, otherwise⟩

end Checks

section Modify

variable {ok : Item → Prop} {may : Sql → Prop} {v : Item}

theorem valueCheck_any {inv : Gen → Prop} (context : ModifyContext) (fl : Field) (v : Item) (kind : Cls) :
    Yields inv (valueCheck context fl v kind) fun _ => True := by
  cases kind with
  | int =>
      refine .ite (fun _ => .throw) fun _ => ?_
      split
      · exact .pure trivial
      · exact .ite (fun _ => .throw) fun _ => .pure trivial
      · exact .pure trivial
  | real => exact .ite (fun _ => .throw) fun _ => .ite (fun _ => .throw) fun _ => .pure trivial
  | str =>
      refine .ite (fun _ => .throw) fun _ => .ite (fun _ => .throw) fun _ => ?_
      split
      · exact .ite (fun _ => .throw) fun _ => .pure trivial
      · exact .throw
      · exact .ite (fun _ => .throw) fun _ => .ite (fun _ => .throw) fun _ => .pure trivial
  | datetime | time | tstamp | unsafe_ =>
      unfold valueCheck temporalCheck
      dsimp only
      split
      · exact .ite (fun _ => .throw) fun _ => .pure trivial
      · exact .throw

theorem zero_numberText : NumberText "0.0" := by
  let zero : Numeral := ⟨false, ['0'], some ['0'], none, List.cons_ne_nil _ _, by simp, by simp, by simp⟩
  exact zero.numberText

theorem guarded_named (context : ModifyContext) (fl : Field) (error : GuardError) :
    Yields Named (guarded context fl error) fun _ => True :=
  .ite (fun _ => .throw) fun _ => .read fun _ _ => .ite (fun _ => .throw) fun _ =>
    .change fun _ named => ⟨named.aliases, named.viewCols⟩

/-- What a SET writes, and what its column will hold. -/
theorem assignment_shaped (allows : Allows ok may) (context : ModifyContext) (target : Item) (fl : Field)
    (formed : v.Formed ok) :
    Yields Named (assignment context target fl v) fun result =>
      (1 ≤ result.1.level ∧ result.1.Shaped may) ∧ 5 ≤ result.2.level ∧ result.2.Shaped may := by
  have written : Yields Named (Child.expr ⟨v, node v, query v⟩) fun sql => sql.Value may :=
    @Child.Writes.value _ _ ⟨v, node v, query v⟩ ⟨formed, node_shaped allows v formed, query_shaped allows v formed⟩
  unfold assignment
  split
  · exact .throw
  · exact .ite (fun _ => .throw) fun _ => .pure ⟨⟨by decide, trivial⟩, by decide, trivial⟩
  · refine .ite (fun _ => .throw) fun _ => .ite (fun _ => .throw) fun _ => (valueCheck_any context fl v (cls target)).bind
      fun check _ => ?_
    cases check with
    | none =>
        exact written.bind fun _ value =>
          .pure ⟨⟨Nat.le_trans (by decide) value.1, value.2⟩, by simp [Sql.level], value.2⟩
    | plusZero =>
        refine written.bind fun sql value => .pure ?_
        have zeroed : (Sql.arithmetic .add sql (.number "0.0")).Shaped may :=
          ⟨⟨Nat.le_trans (by decide) value.1, value.2⟩, by decide +kernel, zero_numberText⟩
        exact ⟨⟨by simp [Sql.level, Arithmetic.level], zeroed⟩, by simp [Sql.level], zeroed⟩
    | range least most =>
        refine (guarded_named _ _ _).bind fun _ _ => written.bind fun sql value => .pure ?_
        have checked := @rangeCheck_shaped may (.paren sql) least most (by simp [Sql.level]) value.2
        exact ⟨⟨Nat.le_trans (by decide) checked.1, checked.2⟩, by simp [Sql.level], value.2⟩
    | length most =>
        refine (guarded_named _ _ _).bind fun _ _ => written.bind fun sql value => .pure ?_
        have operand : 5 ≤ (Sql.paren sql).level := by simp [Sql.level]
        have checked := @lengthCheck_shaped may (.paren sql) _ most operand value.2 guardOverflow_shaped
        have stored := @lengthCheck_shaped may (.paren sql) _ most operand value.2
          ⟨Nat.le_trans (by decide) operand, value.2⟩
        exact ⟨⟨Nat.le_trans (by decide) checked.1, checked.2⟩, Nat.le_trans (by decide) stored.1, stored.2⟩

/-- The SET list, and the tests of the columns it changes. -/
theorem setList_shaped (allows : Allows ok may) (context : ModifyContext) (table : TableId) (tableName : String)
    {targets values : List Item} (formed : ItemsFormed ok values) :
    Yields Named (setList context table (quoteIdent tableName) targets values) fun result =>
      (SetsShaped may result.1 ∧ result.1.length = targets.length) ∧ AllShaped may 4 result.2 := by
  induction targets generalizing values with
  | nil => exact .pure ⟨⟨fun _ member => absurd member List.not_mem_nil, rfl⟩, trivial⟩
  | cons target targets ih =>
      cases values with
      | nil => exact .throw
      | cons v values =>
          unfold setList
          split
          · rename_i attrs fl
            refine .ite (fun _ => .throw) fun _ => (assignment_shaped allows context _ fl formed.1).bind fun result both => ?_
            obtain ⟨value, stored⟩ := result
            have assigned : Yields Named (modify fun g => { g with assigned := fl :: g.assigned } : GenM PUnit)
                fun _ => True := .change fun _ named => ⟨named.aliases, named.viewCols⟩
            refine assigned.bind fun _ _ => (ih formed.2).bind fun others more => .pure ⟨⟨?_, congrArg (· + 1) more.1.2⟩, ?_⟩
            · exact List.forall_mem_cons.mpr ⟨both.1, more.1.1⟩
            · have column : (aliasTok (quoteIdent tableName)).Valid := by
                rw [quoteIdent_tok]
                trivial
              exact ⟨⟨by simp [Sql.level], ⟨by simp [Sql.level], column⟩, both.2⟩, more.2⟩
          · exact .throw

theorem whereCondition_shaped (allows : Allows ok may) {filter : Option Item} (formed : OptionFormed ok filter) :
    Yields Named (whereCondition filter) fun cond => OptionShaped may (cond.map Prod.snd) := by
  cases filter with
  | none => exact .pure trivial
  | some it =>
      have writes : Child.Writes ok may ⟨it, node it, query it⟩ :=
        ⟨formed, node_shaped allows it formed, query_shaped allows it formed⟩
      exact writes.condition.bind fun _ value => .pure ⟨Nat.le_trans (by decide) value.1, value.2⟩

theorem changedFilter_shaped {cond : Option (Item × Sql)} {changes : List Sql} (some_ : changes ≠ [])
    (condShaped : OptionShaped may (cond.map Prod.snd)) (shaped : AllShaped may 4 changes) :
    OptionShaped may (some (changedFilter cond changes)) := by
  have changed (level : Nat) (low : level ≤ 9) : level ≤ (Sql.paren (.connect .or changes)).level ∧
      (Sql.paren (.connect .or changes)).Shaped may := ⟨low, some_, shaped.weaken (by decide)⟩
  cases cond with
  | none => exact changed 1 (by decide)
  | some both =>
      obtain ⟨it, cond⟩ := both
      have whole : 3 ≤ (Sql.paren cond).level ∧ (Sql.paren cond).Shaped may := ⟨by simp [Sql.level], condShaped.2⟩
      refine ⟨by simp [changedFilter, Sql.level, Connective.level], List.cons_ne_nil _ _, whole, ?_⟩
      split
      · exact ⟨⟨by simp [Sql.level, Connective.level], by simp [Sql.level], condShaped.2⟩, changed 3 (by decide), trivial⟩
      · exact ⟨changed 3 (by decide), trivial⟩

theorem modifyStatement_shaped (allows : Allows ok may) (context : ModifyContext) {sel : ModifySelect}
    {filter : Option Item} (formed : sel.Formed ok context.update filter) :
    Yields Named (modifyStatement context sel filter) fun result =>
      result.1.Shaped may ∧ ∀ count ∈ result.2, count.Shaped may := by
  obtain ⟨some_, valuesFormed, filterFormed⟩ := formed
  have filtered := whereCondition_shaped allows filterFormed
  unfold modifyStatement
  split
  · rename_i id tableName _ _ _ _
    have valid : (aliasTok (quoteIdent tableName)).Valid := by
      rw [quoteIdent_tok]
      trivial
    have aliased : Yields Named (modify fun g => { g with aliases := (id, quoteIdent tableName) :: g.aliases } :
        GenM PUnit) fun _ => True :=
      .change fun _ named => ⟨List.forall_mem_cons.mpr ⟨valid, named.aliases⟩, named.viewCols⟩
    have cleared : Yields Named (modify fun g => { g with assigned := [] } : GenM PUnit) fun _ => True :=
      .change fun _ named => ⟨named.aliases, named.viewCols⟩
    refine aliased.bind fun _ _ => .ite (fun update => .ite (fun _ => .throw) fun _ => .ite (fun _ => .throw) fun _ => ?_)
      fun _ => ?_
    · refine (setList_shaped allows context id tableName valuesFormed).bind fun result both => ?_
      obtain ⟨sets, changes⟩ := result
      have someSets : sets ≠ [] := by
        rintro rfl
        exact some_ update (List.length_eq_zero_iff.mp both.1.2.symm)
      refine cleared.bind fun _ _ => filtered.bind fun cond shaped => .ite (fun _ => ?_) fun several => ?_
      · exact .pure ⟨⟨valid, someSets, both.1.1, shaped⟩, fun _ member => by cases member⟩
      · have someChanges : changes ≠ [] := by
          rintro rfl
          simp at several
        refine .pure ⟨⟨valid, someSets, both.1.1, changedFilter_shaped someChanges shaped both.2⟩, ?_⟩
        rintro _ ⟨⟩
        exact ⟨valid, shaped⟩
    · exact filtered.bind fun cond shaped => .pure ⟨⟨valid, shaped⟩, fun _ member => by cases member⟩
  · exact .throw

end Modify

section Generated

variable {ok : Item → Prop} {may : Sql → Prop} {trustBin : Bool}

theorem newGen_named : Named (newGen trustBin) :=
  ⟨fun _ member => absurd member List.not_mem_nil, fun _ member => absurd member List.not_mem_nil⟩

theorem yields_run {α : Type} {x : GenM α} {post : α → Prop} {value : α} (yields : Yields Named x post)
    (ran : (x.run (newGen trustBin)).map Prod.fst = .ok value) : post value := by
  obtain ⟨⟨written, last⟩, result, rfl⟩ := ExceptList.map_ok.mp ran
  exact (yields _ _ _ newGen_named result).2

theorem genSelect_shaped (allows : Allows ok may) {select : Select} {query : Query} (formed : select.Formed ok)
    (generated : genSelect trustBin select = .ok query) : query.Shaped may :=
  (yields_run (select_shaped allows true none none select formed) generated).1

theorem genUnit_shaped (allows : Allows ok may) {unit : SelectUnit} {query : Query} (formed : unit.Formed ok)
    (generated : genUnit trustBin unit = .ok query) : query.Shaped may :=
  yields_run (unit_shaped allows none unit formed) generated

theorem genModify_shaped (allows : Allows ok may) {context : ModifyContext} {sel : ModifySelect} {filter : Option Item}
    {statement : Statement} {count : Option ModifyCount} {guard : Option ModifyGuard}
    (formed : sel.Formed ok context.update filter)
    (generated : genModify trustBin context sel filter = .ok (statement, count, guard)) :
    statement.Shaped may ∧ ∀ counted ∈ count, counted.Shaped may := by
  obtain ⟨⟨⟨written, counted⟩, g⟩, ran, told⟩ := ExceptList.bind_ok.mp generated
  cases told
  exact (modifyStatement_shaped allows context formed _ _ _ newGen_named ran).2

theorem negatable_allowed : Allows (fun _ => True) Negatable :=
  fun _ _ _ bound minus => ⟨bound, fun tight => (minus tight).1⟩

/-- Behind a minus sign there is no other where no NEG_FUNC has one before a
number below zero. -/
theorem plain_allowed : Allows Item.Plain Unsigned := by
  intro it sql plain bound minus
  rcases Nat.eq_or_lt_of_le bound with tight | above
  · obtain ⟨-, signed, other⟩ := minus tight.symm
    rw [plain signed] at other
    cases other
  · exact above

/-- Where the minus signs stand before what they may, the text reads back just
when none stands before a number with its own. -/
theorem Query.readsBack_iff_plain {query : Query} (shaped : query.Shaped Negatable) :
    query.ReadsBack ↔ ∀ operand ∈ query.negated, operand.negative = false :=
  (query.readsBack_iff (query.shaped_iff.mp shaped).1).trans (Query.unsigned_iff shaped)

theorem Statement.readsBack_iff_plain {statement : Statement} (shaped : statement.Shaped Negatable) :
    statement.ReadsBack ↔ ∀ operand ∈ statement.negated, operand.negative = false :=
  (statement.readsBack_iff (statement.shaped_iff.mp shaped).1).trans (Statement.unsigned_iff shaped)

theorem ModifyCount.readsBack_iff_plain {count : ModifyCount} (shaped : count.Shaped Negatable) :
    count.ReadsBack ↔ ∀ operand ∈ count.negated, operand.negative = false :=
  (count.readsBack_iff (count.shaped_iff.mp shaped).1).trans (ModifyCount.unsigned_iff shaped)

/-- A generated statement, and the count of an UPDATE's rows, read back just when
no minus sign is written before a number with its own; and so they do when no
NEG_FUNC of the tree has such an operand. -/
theorem generated_readsBack :
    (∀ (trustBin : Bool) (select : Select) (query : Query), (select.Formed fun _ => True) →
      genSelect trustBin select = .ok query →
        (query.ReadsBack ↔ ∀ operand ∈ query.negated, operand.negative = false) ∧
          (select.Formed Item.Plain → query.ReadsBack)) ∧
    (∀ (trustBin : Bool) (unit : SelectUnit) (query : Query), (unit.Formed fun _ => True) →
      genUnit trustBin unit = .ok query →
        (query.ReadsBack ↔ ∀ operand ∈ query.negated, operand.negative = false) ∧
          (unit.Formed Item.Plain → query.ReadsBack)) ∧
    ∀ (trustBin : Bool) (context : ModifyContext) (sel : ModifySelect) (filter : Option Item) (statement : Statement)
      (count : Option ModifyCount) (guard : Option ModifyGuard), sel.Formed (fun _ => True) context.update filter →
      genModify trustBin context sel filter = .ok (statement, count, guard) →
        ((statement.ReadsBack ↔ ∀ operand ∈ statement.negated, operand.negative = false) ∧
          ∀ counted ∈ count, (counted.ReadsBack ↔ ∀ operand ∈ counted.negated, operand.negative = false)) ∧
        (sel.Formed Item.Plain context.update filter → statement.ReadsBack ∧ ∀ counted ∈ count, counted.ReadsBack) := by
  refine ⟨fun trustBin select query formed generated => ?_, fun trustBin unit query formed generated => ?_,
    fun trustBin context sel filter statement count guard formed generated => ?_⟩
  · have shaped := genSelect_shaped negatable_allowed formed generated
    refine ⟨Query.readsBack_iff_plain shaped, fun plain => ?_⟩
    exact (query.readsBack_iff (query.shaped_iff.mp shaped).1).mpr (genSelect_shaped plain_allowed plain generated)
  · have shaped := genUnit_shaped negatable_allowed formed generated
    refine ⟨Query.readsBack_iff_plain shaped, fun plain => ?_⟩
    exact (query.readsBack_iff (query.shaped_iff.mp shaped).1).mpr (genUnit_shaped plain_allowed plain generated)
  · obtain ⟨shaped, countShaped⟩ := genModify_shaped negatable_allowed formed generated
    refine ⟨⟨Statement.readsBack_iff_plain shaped, fun counted member =>
      ModifyCount.readsBack_iff_plain (countShaped counted member)⟩, fun plain => ?_⟩
    obtain ⟨unsigned, countUnsigned⟩ := genModify_shaped plain_allowed plain generated
    refine ⟨(statement.readsBack_iff (statement.shaped_iff.mp shaped).1).mpr unsigned, fun counted member => ?_⟩
    have anything := (counted.shaped_iff.mp (countShaped counted member)).1
    exact (counted.readsBack_iff anything).mpr (countUnsigned counted member)

end Generated

/-- `SELECT -?` of an integer parameter. -/
def negatedSelect (value : Int64) : Select :=
  .mk { olap := false, tvc := false, withTies := false, foundRows := false, distinct := false, withSumFunc := false,
        mergeable := false, haveWindowFuncs := false, uncacheableRand := false, linkage := .other,
        distinctLeg := false, limit := none }
    [.mk (.base 0 "t") none false false]
    [.func (intAttrs false) false .neg [.const (intAttrs false) (.int value)]] none [] none []

def negatedQuery (value : Int64) : Query :=
  .select false (some [.mk (.paren (.neg (.integer value))) none]) [.mk none (.table "t" "t0") []] [] [] none [] none

/-- `(-5)` reads back, and `(--5)` is the beginning of a comment. -/
theorem generated_readsBack_sample : (negatedQuery 5).ReadsBack ∧ ¬ (negatedQuery (-5)).ReadsBack := by
  have formed (ok : Item → Prop) (value : Int64) (operand : ok (.const (intAttrs false) (.int value))) :
      (negatedSelect value).Formed ok :=
    ⟨⟨⟨trivial, trivial⟩, trivial⟩, ⟨List.cons_ne_nil _ _, ⟨operand, trivial, trivial⟩, trivial⟩, trivial, trivial,
      trivial, trivial⟩
  have five := generated_readsBack.1 false (negatedSelect 5) (negatedQuery 5) (formed _ 5 trivial) rfl
  have minus := generated_readsBack.1 false (negatedSelect (-5)) (negatedQuery (-5)) (formed _ (-5) trivial) rfl
  have plain : Item.Plain (.const (intAttrs false) (.int 5)) := fun signed => absurd signed (by decide)
  refine ⟨five.2 (formed _ 5 plain), fun back => ?_⟩
  have member : Sql.integer (-5) ∈ (negatedQuery (-5)).negated := by
    simp [negatedQuery, Query.negated, listNegated, outputsNegated, Output.negated, Sql.negated]
  have negative : (Sql.integer (-5)).negative = true := by decide +kernel
  exact absurd negative (Bool.eq_false_iff.mp (minus.1.mp back _ member))

end StoolapMariadb.SqlGen
