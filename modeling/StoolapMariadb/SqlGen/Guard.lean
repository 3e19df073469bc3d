import Mathlib.Algebra.Group.Nat.Defs
import StoolapMariadb.SqlGen.Update
import StoolapMariadb.SqlGen.Eval

namespace StoolapMariadb.SqlGen

/-! The check around a SET value fails the statement for the rows the WHERE
takes, and for those only. -/

open StoolapMariadb.Types (RealType)
open Kleene (Truth)
open StateExcept

section Parts

variable (stoolap : Engine) (columns : Columns)

/-- The overflow the statement fails with. -/
def guardFault : Fault := .overflow 9223372036854775807 4242

theorem eval_guardOverflow : guardOverflow.eval stoolap columns = .error guardFault := by
  rfl

variable {stoolap columns} {value : Sql} {least most : Int64}

/-- The operands of an OR that are booleans: its value, all evaluated or not. -/
theorem anyOf_booleans {operands : List Sql}
    (booleans : ∀ operand ∈ operands, ∃ b, operand.eval stoolap columns = .ok (some (.boolean b))) :
    ∃ b, anyOf stoolap columns operands = .ok (some b) ∧
      (b = true ↔ ∃ operand ∈ operands, operand.eval stoolap columns = .ok (some (.boolean true))) := by
  induction operands with
  | nil => exact ⟨false, rfl, by simp⟩
  | cons operand operands ih =>
      obtain ⟨first, others⟩ := List.forall_mem_cons.mp booleans
      obtain ⟨left, leftRan⟩ := first
      obtain ⟨right, rightRan, rightIff⟩ := ih others
      refine ⟨left || right, ?_, ?_⟩
      · cases left <;> simp [anyOf, leftRan, rightRan, bind, Except.bind, pure, Except.pure, truth, Kleene.or]
      · simp [leftRan, ← rightIff]

theorem eval_rangeCheck_null (null : value.eval stoolap columns = .ok none) :
    (rangeCheck value least most).eval stoolap columns = .ok none := by
  simp [rangeCheck, Sql.eval, Arms.search, anyOf, null, bind, Except.bind, pure, Except.pure, boolean, truth,
    Engine.compareValues, Kleene.or]

/-- A value out of its column's range fails the statement; one in it is
assigned as it is. -/
theorem eval_rangeCheck (least most : Int64) {n : Int64} (ran : value.eval stoolap columns = .ok (some (.integer n))) :
    (rangeCheck value least most).eval stoolap columns =
      if n < least ∨ most < n then .error guardFault else .ok (some (.integer n)) := by
  have below : Comparison.lt.holds (stoolap.compare (.integer n) (.integer least)) = decide (n < least) := by
    simp [Comparison.holds, Engine.compare, Std.compare_eq_lt]
  have above : Comparison.gt.holds (stoolap.compare (.integer n) (.integer most)) = decide (most < n) := by
    simp [Comparison.holds, Engine.compare, Std.compare_eq_gt]
  by_cases low : n < least
  · simp [rangeCheck, Sql.eval, Arms.search, anyOf, ran, bind, Except.bind, pure, Except.pure, boolean, truth,
      Engine.compareValues, below, low, eval_guardOverflow]
  · by_cases high : most < n
    · simp [rangeCheck, Sql.eval, Arms.search, anyOf, ran, bind, Except.bind, pure, Except.pure, boolean, truth,
        Engine.compareValues, below, above, low, high, Kleene.or, eval_guardOverflow]
    · simp [rangeCheck, Sql.eval, Arms.search, anyOf, ran, bind, Except.bind, pure, Except.pure, boolean, truth,
        Engine.compareValues, below, above, low, high, Kleene.or]

/-- A WHEN whose test is a boolean. -/
theorem search_when {test : Sql} {rest : Arms} {b : Bool}
    (ran : test.eval stoolap columns = .ok (some (.boolean b))) :
    (Arms.when test value rest).search stoolap columns =
      if b then value.eval stoolap columns else rest.search stoolap columns := by
  cases b <;> simp [Arms.search, ran, bind, Except.bind, truth]

theorem evals_one {v : Value} (ran : value.eval stoolap columns = .ok v) :
    evals stoolap columns [value] = .ok [v] := by
  simp [evals, ran, bind, Except.bind, pure, Except.pure]

theorem evals_cons {rest : List Sql} {v : Value} {values : List Value} (ran : value.eval stoolap columns = .ok v)
    (restRan : evals stoolap columns rest = .ok values) : evals stoolap columns (value :: rest) = .ok (v :: values) := by
  simp [evals, ran, restRan, bind, Except.bind, pure, Except.pure]

/-- A function that reads all its arguments. -/
theorem eval_call (function : Function) {args : List Sql} {values : List Value}
    (strict : function ≠ .coalesce ∧ function ≠ .ifnull) (ran : evals stoolap columns args = .ok values) :
    (Sql.call function args).eval stoolap columns = stoolap.apply function values := by
  obtain ⟨coalesce, ifnull⟩ := strict
  cases function <;> simp_all [Sql.eval, bind, Except.bind]

def asciiSpaces : List UInt8 := [0x20, 0x09, 0x0A, 0x0B, 0x0C, 0x0D]

theorem replaceBytes_single (byte : UInt8) (bytes : List UInt8) :
    replaceBytes [byte] [] 0 bytes = bytes.filter (· ≠ byte) := by
  induction bytes with
  | nil => rfl
  | cons first rest ih =>
      by_cases same : byte = first
      · subst same
        simp [replaceBytes, ih]
      · simp [replaceBytes, ih, same, Ne.symm same]

/-- What the nested REPLACEs leave of a text. -/
theorem eval_replaces {spaces bytes : List UInt8} (ran : value.eval stoolap columns = .ok (some (.text bytes))) :
    (spaces.foldl (fun rest space => Sql.call .replace [rest, .text [space], .text []]) value).eval stoolap columns =
      .ok (some (.text (bytes.filter (· ∉ spaces)))) := by
  induction spaces generalizing value bytes with
  | nil => simpa using ran
  | cons space spaces ih =>
      have first : (Sql.call .replace [value, .text [space], .text []]).eval stoolap columns =
          .ok (some (.text (bytes.filter (· ≠ space)))) := by
        simp [Sql.eval, evals, ran, bind, Except.bind, pure, Except.pure, Engine.apply, Engine.textOf,
          replaceBytes_single]
      rw [List.foldl_cons, ih first, List.filter_filter]
      simp only [List.mem_cons, not_or, Bool.decide_and, Bool.and_comm]

theorem checked_ok {fault : Fault} {result : Int}
    (fits : Int64.minValue.toInt ≤ result ∧ result ≤ Int64.maxValue.toInt) :
    checked fault result = .ok (some (.integer (Int64.ofInt result))) :=
  if_pos fits

theorem eval_succ {length : Nat} (small : length < 2 ^ 62) :
    (Sql.arithmetic .add (.integer (Int64.ofNat length)) (.integer 1)).eval stoolap columns =
      .ok (some (.integer (Int64.ofNat (length + 1)))) := by
  have fits : (Int64.ofNat length).toInt = length := Int64.toInt_ofNat_of_lt (by omega)
  change checked _ ((Int64.ofNat length).toInt + 1) = _
  have least : Int64.minValue.toInt = -2 ^ 63 := rfl
  have most : Int64.maxValue.toInt = 2 ^ 63 - 1 := rfl
  rw [fits, checked_ok (by omega)]
  rfl

theorem eval_substr_from {bytes : List UInt8} {length : Nat} (small : length < 2 ^ 62)
    (ran : value.eval stoolap columns = .ok (some (.text bytes))) :
    (Sql.call .substr [value, .arithmetic .add (.integer (Int64.ofNat length)) (.integer 1)]).eval stoolap columns =
      .ok (some (.text (skipChars length bytes))) := by
  have back : (Int64.ofNat (length + 1)).toNatClampNeg - 1 = length := by
    rw [Int64.toNatClampNeg_ofNat_of_lt (by omega), Nat.add_sub_cancel]
  rw [eval_call .substr (by decide) (evals_cons ran (evals_one (eval_succ small)))]
  simp only [Engine.apply, Engine.substr, back, Engine.textOf]

theorem eval_lengthRest {bytes : List UInt8} {length : Nat} (small : length < 2 ^ 62)
    (ran : value.eval stoolap columns = .ok (some (.text bytes))) :
    (lengthRest value length).eval stoolap columns =
      .ok (some (.text ((skipChars length bytes).filter (· ∉ asciiSpaces)))) :=
  eval_replaces (eval_substr_from small ran)

theorem eval_lengthCheck_null {other : Sql} {length : Nat} (null : value.eval stoolap columns = .ok none) :
    (lengthCheck value length other).eval stoolap columns = .ok none := by
  simp [lengthCheck, Sql.eval, Arms.search, anyOf, null, bind, Except.bind, pure, Except.pure, boolean, truth]

/-- Past the column's length, what is cut must be white space. -/
def TooLong (length : Nat) (bytes : List UInt8) : Prop :=
  length < numchars bytes ∧ ∃ byte ∈ skipChars length bytes, byte ∉ asciiSpaces

theorem numchars_le_length (bytes : List UInt8) : numchars bytes ≤ bytes.length := List.length_filter_le _ _

theorem eval_charLength_le {bytes : List UInt8} {length : Nat} (small : length < 2 ^ 62)
    (bounded : bytes.length < 2 ^ 63) (ran : value.eval stoolap columns = .ok (some (.text bytes))) :
    (Sql.compare .le (.call .charLength [value]) (.integer (Int64.ofNat length))).eval stoolap columns =
      .ok (some (.boolean (decide (numchars bytes ≤ length)))) := by
  have chars : numchars bytes < 2 ^ 63 := by
    have := numchars_le_length bytes
    omega
  have order : (Comparison.le.holds (stoolap.compare (.integer (Int64.ofNat (numchars bytes)))
      (.integer (Int64.ofNat length)))) = decide (numchars bytes ≤ length) := by
    rw [Engine.compare, ← compare_toInt, Int64.toInt_ofNat_of_lt chars, Int64.toInt_ofNat_of_lt (by omega)]
    simp only [Comparison.holds, Option.some.injEq, Int.compare_eq_lt, Int.compare_eq_eq]
    rw [← Bool.decide_or, decide_eq_decide]
    omega
  rw [Sql.eval, eval_call .charLength (by decide) (evals_one ran), ← order]
  rfl

/-- A text as it is when the column holds it, cut when only white space goes,
and else what stands for too long. -/
theorem eval_lengthCheck_text (length : Nat) (other : Sql) {bytes : List UInt8} (small : length < 2 ^ 62)
    (bounded : bytes.length < 2 ^ 63) (ran : value.eval stoolap columns = .ok (some (.text bytes))) :
    (lengthCheck value length other).eval stoolap columns =
      if numchars bytes ≤ length then .ok (some (.text bytes))
      else if (skipChars length bytes).filter (· ∉ asciiSpaces) = [] then .ok (some (.text (takeChars length bytes)))
      else other.eval stoolap columns := by
  have short := eval_charLength_le small bounded ran
  have rest := eval_lengthRest small ran
  have first : anyOf stoolap columns [.isNull false value,
      .compare .le (.call .charLength [value]) (.integer (Int64.ofNat length))] =
      .ok (some (decide (numchars bytes ≤ length))) := by
    have present : (Sql.isNull false value).eval stoolap columns = .ok (some (.boolean false)) := by
      rw [Sql.eval, ran]
      rfl
    simp only [anyOf, short, present, bind, Except.bind, pure, Except.pure, truth]
    cases decide (numchars bytes ≤ length) <;> rfl
  have second : (Sql.compare .eq (lengthRest value length) (.text [])).eval stoolap columns =
      .ok (some (.boolean (decide ((skipChars length bytes).filter (· ∉ asciiSpaces) = [])))) := by
    rw [Sql.eval, rest]
    generalize (skipChars length bytes).filter (· ∉ asciiSpaces) = left
    cases left <;> rfl
  have third : (Sql.call .substr [value, .integer 1, .integer (Int64.ofNat length)]).eval stoolap columns =
      .ok (some (.text (takeChars length bytes))) := by
    have back : (Int64.ofNat length).toNatClampNeg = length := Int64.toNatClampNeg_ofNat_of_lt (by omega)
    have args := evals_cons ran (evals_cons (Sql.eval.eq_3 stoolap columns 1)
      (evals_one (Sql.eval.eq_3 stoolap columns (Int64.ofNat length))))
    rw [eval_call .substr (by decide) args]
    simp only [Engine.apply, Engine.substr, back, Engine.textOf]
    rfl
  have either : (Sql.connect .or [.isNull false value,
      .compare .le (.call .charLength [value]) (.integer (Int64.ofNat length))]).eval stoolap columns =
      .ok (some (.boolean (decide (numchars bytes ≤ length)))) := by
    rw [Sql.eval, first]
    rfl
  rw [lengthCheck, Sql.eval, search_when either, search_when second, Arms.search, ran, third]
  simp only [decide_eq_true_eq]

theorem eval_lengthCheck (length : Nat) (other : Sql) {bytes : List UInt8} (small : length < 2 ^ 62)
    (bounded : bytes.length < 2 ^ 63) (ran : value.eval stoolap columns = .ok (some (.text bytes))) :
    (TooLong length bytes → (lengthCheck value length other).eval stoolap columns = other.eval stoolap columns) ∧
      (¬ TooLong length bytes → ∃ stored,
        (lengthCheck value length other).eval stoolap columns = .ok (some (.text stored))) := by
  rw [eval_lengthCheck_text length other small bounded ran]
  constructor
  · rintro ⟨long, byte, member, solid⟩
    rw [if_neg (by omega), if_neg]
    exact List.ne_nil_of_mem (List.mem_filter.mpr ⟨member, by simpa using solid⟩)
  · intro fits
    split
    · exact ⟨_, rfl⟩
    · rename_i long
      rw [if_pos]
      · exact ⟨_, rfl⟩
      · rw [List.filter_eq_nil_iff]
        intro byte member
        by_contra solid
        exact fits ⟨by omega, byte, member, by simpa using solid⟩

end Parts

/-- A value the column cannot hold: an integer out of its range, or a text
longer than it by more than white space. -/
def Unfit (fl : Field) : Value → Prop
  | some (.integer n) => ∃ least most, intRange fl = some (least, most) ∧ (n < least ∨ most < n)
  | some (.text bytes) => RealType.isVarchar fl.realType = true ∧ TooLong fl.charLength bytes
  | _ => False

/-- What a value of the item's class is to stoolap. A string is no longer than
its `max_length`. -/
def OfClass (v : Item) : Value → Prop
  | none => True
  | some value =>
      match cls v with
      | .int => ∃ n, value = .integer n
      | .str => ∃ bytes, value = .text bytes ∧ bytes.length ≤ v.attrs.maxLength
      | _ => True

/-- A value the column can have stored. -/
def Fits (fl : Field) : Value → Prop
  | none => True
  | some value =>
      (∀ least most, intRange fl = some (least, most) → ∃ n, value = .integer n ∧ least ≤ n ∧ n ≤ most) ∧
        (RealType.isVarchar fl.realType = true → ∃ bytes, value = .text bytes ∧ numchars bytes ≤ fl.charLength)

/-- What MariaDB keeps of a column and of a literal: a VARCHAR has at most
65535 characters, and a string is no boolean. -/
structure Assignment.Proper (assignment : Assignment) : Prop where
  short : RealType.isVarchar assignment.field.realType = true → assignment.field.charLength ≤ 65535
  string : ∀ attrs bytes datetime time, assignment.item = .const attrs (.string bytes datetime time) →
    attrs.boolType = false

section Values

variable {stoolap : Engine} {columns : Columns} {fl : Field} {v : Item} {value : Value}

theorem not_unfit_of_unbounded (noRange : intRange fl = none) (noLength : RealType.isVarchar fl.realType = false) :
    ¬ Unfit fl value := by
  rcases value with _ | ⟨n⟩ | ⟨bits⟩ | ⟨bytes⟩ | ⟨b⟩ <;> simp [Unfit, noRange, noLength]

/-- An integer literal is written as it is, or cast to what it is. -/
theorem integer_literal_eval {attrs : Attrs} {n : Int64} {g after : Gen} {sql : Sql}
    (wrote : expr (.const attrs (.int n)) g = .ok (sql, after)) :
    sql.eval stoolap columns = .ok (some (.integer n)) := by
  have constant_ran {after : Gen} {sql : Sql} (ran : constant attrs (.int n) g = .ok (sql, after)) :
      sql = .integer n := by
    rw [constant] at ran
    split at ran
    · exact (throw_ok.mp ran).elim
    · exact (pure_ok.mp ran).1.symm
  change (if _ then constant attrs (.int n) else (do return .cast (← constant attrs (.int n)) .integer)) g = _ at wrote
  split at wrote
  · rw [constant_ran wrote]
    simp [Sql.eval]
  · obtain ⟨inner, middle, ran, wrote⟩ := bind_ok.mp wrote
    obtain ⟨rfl, -⟩ := pure_ok.mp wrote
    rw [constant_ran ran]
    rfl

theorem text_literal_eval {attrs : Attrs} {bytes : List UInt8} {datetime time : Option Int64} {g after : Gen}
    {sql : Sql} (plain : attrs.boolType = false)
    (wrote : expr (.const attrs (.string bytes datetime time)) g = .ok (sql, after)) :
    sql.eval stoolap columns = .ok (some (.text bytes)) := by
  have value : Item.isBoolType (.const attrs (.string bytes datetime time)) = false := by
    simp [Item.isBoolType, Item.isPredicate, Item.attrs, plain]
  change (if (false || !Item.isBoolType _) = true then constant attrs (.string bytes datetime time) else _) g = _ at wrote
  rw [value, if_pos (by rfl), constant] at wrote
  split at wrote
  · exact (throw_ok.mp wrote).elim
  · rw [← (pure_ok.mp wrote).1, Sql.eval]

/-- What becomes of an assignment whose value is `value` for the row. -/
theorem assignment_outcome {assignment : Assignment} (writes : Writes assignment.field assignment.item assignment.value)
    (proper : assignment.Proper) (ran : assignment.value.plain.eval stoolap columns = .ok value)
    (ofClass : OfClass assignment.item value) :
    (Unfit assignment.field value →
      assignment.value.set.eval stoolap columns = .error guardFault ∧
        assignment.value.stored.eval stoolap columns = .ok value) ∧
    (¬ Unfit assignment.field value → (∃ v, assignment.value.set.eval stoolap columns = .ok v) ∧
        ∃ v, assignment.value.stored.eval stoolap columns = .ok v) := by
  obtain ⟨fl, v, setValue⟩ := assignment
  simp only at writes ran ofClass ⊢
  cases writes with
  | null isNull =>
      rw [SetValue.plain, Sql.eval] at ran
      cases ran
      exact ⟨fun unfit => unfit.elim, fun _ => ⟨⟨none, by simp [SetValue.set, Sql.eval]⟩, none, by simp [SetValue.stored, Sql.eval]⟩⟩
  | of written needed =>
      rename_i sql check
      obtain ⟨g, after, wrote⟩ := written
      rw [SetValue.plain] at ran
      have asIs : ∃ v, (Sql.paren sql).eval stoolap columns = .ok v := ⟨value, (eval_paren stoolap columns _).trans ran⟩
      cases needed with
      | unbounded noRange noLength plain =>
          refine ⟨fun unfit => (not_unfit_of_unbounded noRange noLength unfit).elim, fun _ => ?_⟩
          obtain rfl | rfl := plain
          · exact ⟨⟨value, ran⟩, asIs⟩
          · have zeroed : ∃ v, (Sql.arithmetic .add sql (.number "0.0")).eval stoolap columns = .ok v := by
              rw [Sql.eval, ran, Sql.eval]
              rcases value with _ | ⟨n⟩ | ⟨bits⟩ | ⟨bytes⟩ | ⟨b⟩ <;> exact ⟨_, rfl⟩
            obtain ⟨v, zeroed⟩ := zeroed
            exact ⟨⟨v, zeroed⟩, v, (eval_paren stoolap columns _).trans zeroed⟩
      | integer bounded fits =>
          rw [integer_literal_eval wrote] at ran
          cases ran
          refine ⟨?_, fun _ => ⟨⟨_, integer_literal_eval wrote⟩, asIs⟩⟩
          rintro ⟨least, most, range, out⟩
          rw [bounded] at range
          cases range
          exact absurd fits (by simp [← Int64.not_le] at out; tauto)
      | text varchar fits =>
          have plain := proper.string _ _ _ _ rfl
          rw [text_literal_eval plain wrote] at ran
          cases ran
          refine ⟨?_, fun _ => ⟨⟨_, text_literal_eval plain wrote⟩, asIs⟩⟩
          rintro ⟨-, long, -⟩
          omega
      | range int bounded =>
          rename_i least most
          cases value with
          | none =>
              have null : (Sql.paren sql).eval stoolap columns = .ok none := (eval_paren stoolap columns _).trans ran
              exact ⟨fun unfit => unfit.elim, fun _ => ⟨⟨none, eval_rangeCheck_null null⟩, none, null⟩⟩
          | some scalar =>
              obtain ⟨n, rfl⟩ : ∃ n, scalar = .integer n := by simpa [OfClass, int] using ofClass
              have inner : (Sql.paren sql).eval stoolap columns = .ok (some (.integer n)) := (eval_paren stoolap columns _).trans ran
              have unfit : Unfit fl (some (.integer n)) ↔ n < least ∨ most < n := by simp [Unfit, bounded]
              have outcome := eval_rangeCheck least most inner
              rw [unfit]
              refine ⟨fun out => ⟨outcome.trans (if_pos out), inner⟩, fun fits => ⟨⟨_, outcome.trans (if_neg fits)⟩, _, inner⟩⟩
      | length str varchar small =>
          have short : fl.charLength ≤ 65535 := proper.short varchar
          cases value with
          | none =>
              have null : (Sql.paren sql).eval stoolap columns = .ok none := (eval_paren stoolap columns _).trans ran
              exact ⟨fun unfit => unfit.elim,
                fun _ => ⟨⟨none, eval_lengthCheck_null null⟩, none, eval_lengthCheck_null null⟩⟩
          | some scalar =>
              obtain ⟨bytes, rfl, bounded⟩ : ∃ bytes, scalar = .text bytes ∧ bytes.length ≤ v.attrs.maxLength := by
                simpa [OfClass, str] using ofClass
              have inner : (Sql.paren sql).eval stoolap columns = .ok (some (.text bytes)) := (eval_paren stoolap columns _).trans ran
              have unfit : Unfit fl (some (.text bytes)) ↔ TooLong fl.charLength bytes := by simp [Unfit, varchar]
              have set := eval_lengthCheck fl.charLength guardOverflow (by omega) (by omega) inner
              have stored := eval_lengthCheck fl.charLength (.paren sql) (by omega) (by omega) inner
              rw [unfit]
              refine ⟨fun long => ⟨(set.1 long).trans (eval_guardOverflow stoolap columns), (stored.1 long).trans inner⟩,
                fun fits => ⟨?_, ?_⟩⟩
              · obtain ⟨text, ran⟩ := set.2 fits
                exact ⟨_, ran⟩
              · obtain ⟨text, ran⟩ := stored.2 fits
                exact ⟨_, ran⟩

end Values

section Rows

variable {stoolap : Engine} {row : TableRow} {rows : List TableRow} {update : Update} {changes : List Sql}

/-- The WHERE as the statement was given it takes the row. -/
def Update.Takes (update : Update) (stoolap : Engine) (row : TableRow) : Prop :=
  takes stoolap (update.filter.map Prod.snd) row = .ok true

/-- The statement on these rows: the condition is TRUE, FALSE or NULL, the
last only where MariaDB says it may be; the SET values of a row it takes
evaluate without an error, to values of their items' classes; the table holds
what its columns allow. -/
structure Update.Runs (update : Update) (stoolap : Engine) (rows : List TableRow) : Prop where
  proper : ∀ assignment ∈ update.assignments, assignment.Proper
  condition : ∀ row ∈ rows, ∀ it sql, update.filter = some (it, sql) →
    ∃ t : Truth, sql.eval stoolap (fun _ => row) = .ok (boolean t) ∧ (it.attrs.maybeNull = false → t ≠ none)
  values : ∀ row ∈ rows, update.Takes stoolap row → ∀ assignment ∈ update.assignments,
    ∃ value, assignment.value.plain.eval stoolap (fun _ => row) = .ok value ∧ OfClass assignment.item value
  stored : ∀ row ∈ rows, ∀ assignment ∈ update.assignments,
    Fits assignment.field (row assignment.field.name)

theorem compareValues_distinct (stoolap : Engine) (old new : Value) : ∃ b, stoolap.compareValues .isDistinctFrom old new = some b := by
  cases old <;> cases new <;> exact ⟨_, rfl⟩

/-- What the column cannot hold is not what it holds. -/
theorem unfit_distinct {fl : Field} {old new : Value} (fits : Fits fl old) (unfit : Unfit fl new) :
    stoolap.compareValues .isDistinctFrom old new = some true := by
  cases new with
  | none => exact unfit.elim
  | some new =>
      cases old with
      | none => rfl
      | some old =>
          cases new with
          | integer n =>
              obtain ⟨least, most, range, out⟩ := unfit
              obtain ⟨m, rfl, low, high⟩ := fits.1 least most range
              have differ : m ≠ n := by
                rintro rfl
                rcases out with below | above
                · exact absurd low (Int64.not_le.mpr below)
                · exact absurd high (Int64.not_le.mpr above)
              simp [Engine.compareValues, Engine.compare, Comparison.holds, differ]
          | text bytes =>
              obtain ⟨varchar, long, -⟩ := unfit
              obtain ⟨others, rfl, short⟩ := fits.2 varchar
              have differ : compareBytes others bytes ≠ .eq := by
                intro same
                rw [compareBytes_eq_eq.mp same] at short
                omega
              simp [Engine.compareValues, Engine.compare, Comparison.holds, differ]
          | float bits => exact unfit.elim
          | boolean b => exact unfit.elim

theorem eval_change {name : String} {assignment : Assignment} {new : Value}
    (stored : assignment.value.stored.eval stoolap (fun _ => row) = .ok new) :
    (assignment.change name).eval stoolap (fun _ => row) =
      .ok (boolean (stoolap.compareValues .isDistinctFrom (row assignment.field.name) new)) := by
  rw [Assignment.change, Sql.eval, Sql.eval, stored]
  rfl

theorem takes_iff {sql : Sql} :
    takes stoolap (some sql) row = .ok true ↔ sql.eval stoolap (fun _ => row) = .ok (some (.boolean true)) := by
  rw [takes]
  rcases sql.eval stoolap (fun _ => row) with fault | _ | ⟨n⟩ | ⟨bits⟩ | ⟨bytes⟩ | ⟨_ | _⟩ <;>
    simp [truth, bind, Except.bind, pure, Except.pure]

theorem takes_of_eval {sql : Sql} {t : Truth} (ran : sql.eval stoolap (fun _ => row) = .ok (boolean t)) :
    takes stoolap (some sql) row = .ok (decide (t = some true)) := by
  rw [takes, ran]
  rcases t with _ | _ <;> rfl

/-- A row the condition does not take is not taken with the tests either,
whatever they are: the AND stops before them. -/
theorem takes_untaken {it : Item} {sql : Sql} {t : Truth} (foundRows : Bool) (changes : List Sql)
    (ran : sql.eval stoolap (fun _ => row) = .ok (boolean t)) (notTrue : t ≠ some true)
    (nullable : it.attrs.maybeNull = false → t ≠ none) :
    takes stoolap (updateFilter foundRows (some (it, sql)) changes) row = .ok false := by
  have paren : (Sql.paren sql).eval stoolap (fun _ => row) = .ok (boolean t) := by rw [eval_paren, ran]
  unfold updateFilter
  split
  · rw [Option.map_some, takes_of_eval ran, decide_eq_false notTrue]
  · have stops : (changedFilter (some (it, sql)) changes).eval stoolap (fun _ => row) = .ok (boolean (some false)) := by
      rw [changedFilter, List.append_assoc, List.singleton_append, Sql.eval, allOf, paren]
      rcases t with _ | _ | _
      · -- A NULL goes on to the IS NOT NULL, which is FALSE.
        have mayBe : it.attrs.maybeNull = true := by
          by_contra other
          exact nullable (by simpa using other) rfl
        have isNull : (Sql.paren (.isNull true (.paren sql))).eval stoolap (fun _ => row) =
            .ok (boolean (some false)) := by
          rw [eval_paren, Sql.eval, paren]
          rfl
        rw [if_pos mayBe, List.singleton_append, allOf, isNull]
        rfl
      · rfl
      · exact (notTrue rfl).elim
    rw [takes_of_eval stops]
    rfl

/-- Where the condition takes the row, the WHERE is what the tests are. -/
theorem changedFilter_eval {filter : Option (Item × Sql)}
    (ran : takes stoolap (filter.map Prod.snd) row = .ok true) :
    (changedFilter filter changes).eval stoolap (fun _ => row) = boolean <$> anyOf stoolap (fun _ => row) changes := by
  cases filter with
  | none => rw [changedFilter, Sql.eval, Sql.eval]
  | some condition =>
      obtain ⟨it, sql⟩ := condition
      have paren : (Sql.paren sql).eval stoolap (fun _ => row) = .ok (boolean (some true)) := by
        rw [eval_paren, takes_iff.mp ran]
        rfl
      have isNull : (Sql.paren (.isNull true (.paren sql))).eval stoolap (fun _ => row) =
          .ok (boolean (some true)) := by
        rw [eval_paren, Sql.eval, paren]
        rfl
      have last : allOf stoolap (fun _ => row) [.paren (.connect .or changes)] = anyOf stoolap (fun _ => row) changes := by
        rw [allOf, eval_paren, Sql.eval]
        rcases anyOf stoolap (fun _ => row) changes with fault | _ | _ | _ <;> rfl
      rw [changedFilter, List.append_assoc, List.singleton_append, Sql.eval, allOf, paren]
      split
      · rw [List.singleton_append, allOf, isNull, last]
        rcases anyOf stoolap (fun _ => row) changes with fault | _ <;> rfl
      · rw [List.nil_append, last]
        rcases anyOf stoolap (fun _ => row) changes with fault | _ <;> rfl

/-- A row the condition takes is taken as the tests say. -/
theorem takes_taken {filter : Option (Item × Sql)} {b : Bool} (foundRows : Bool)
    (ran : takes stoolap (filter.map Prod.snd) row = .ok true)
    (tested : anyOf stoolap (fun _ => row) changes = .ok (some b)) :
    takes stoolap (updateFilter foundRows filter changes) row = .ok (foundRows || changes.isEmpty || b) := by
  unfold updateFilter
  split
  · rename_i plain
    rw [ran, plain, Bool.true_or]
  · rename_i changed
    have filtered : (changedFilter filter changes).eval stoolap (fun _ => row) = .ok (boolean (some b)) := by
      rw [changedFilter_eval ran, tested]
      rfl
    rw [takes_of_eval filtered, Bool.eq_false_iff.mpr changed, Bool.false_or]
    cases b <;> rfl

/-- The tests of a row the condition takes: they are booleans, and a value the
column cannot hold makes one TRUE. -/
theorem changes_eval {name : String} {assignments : List Assignment}
    (stored : ∀ assignment ∈ assignments, ∃ new, assignment.value.stored.eval stoolap (fun _ => row) = .ok new) :
    ∃ b, anyOf stoolap (fun _ => row) (assignments.map (Assignment.change name)) = .ok (some b) ∧
      (b = true ↔ ∃ assignment ∈ assignments, ∃ new, assignment.value.stored.eval stoolap (fun _ => row) = .ok new ∧
        stoolap.compareValues .isDistinctFrom (row assignment.field.name) new = some true) := by
  have booleans : ∀ operand ∈ assignments.map (Assignment.change name),
      ∃ b, operand.eval stoolap (fun _ => row) = .ok (some (.boolean b)) := by
    intro operand tested
    obtain ⟨assignment, member, rfl⟩ := List.mem_map.mp tested
    obtain ⟨new, ran⟩ := stored assignment member
    obtain ⟨b, distinct⟩ := compareValues_distinct stoolap (row assignment.field.name) new
    exact ⟨b, by rw [eval_change ran, distinct]; rfl⟩
  obtain ⟨b, tested, iff⟩ := anyOf_booleans booleans
  refine ⟨b, tested, iff.trans ?_⟩
  constructor
  · rintro ⟨operand, mapped, ran⟩
    obtain ⟨assignment, member, rfl⟩ := List.mem_map.mp mapped
    obtain ⟨new, newRan⟩ := stored assignment member
    refine ⟨assignment, member, new, newRan, ?_⟩
    rw [eval_change newRan] at ran
    cases distinct : stoolap.compareValues .isDistinctFrom (row assignment.field.name) new <;>
      simp_all [boolean]
  · rintro ⟨assignment, member, new, ran, distinct⟩
    exact ⟨_, List.mem_map_of_mem member, by rw [eval_change ran, distinct]; rfl⟩

/-- The values of a row whose assignments each give a value or the guard's
overflow. -/
theorem setValues_outcome {assignments : List Assignment} {sets : List (String × Sql)}
    (same : sets = assignments.map fun assignment => (assignment.field.name, assignment.value.set))
    (outcome : ∀ assignment ∈ assignments, (∃ v, assignment.value.set.eval stoolap (fun _ => row) = .ok v) ∨
      assignment.value.set.eval stoolap (fun _ => row) = .error guardFault) :
    ((∃ values, setValues stoolap row sets = .ok values) ∨ setValues stoolap row sets = .error guardFault) ∧
      (setValues stoolap row sets = .error guardFault ↔
        ∃ assignment ∈ assignments, assignment.value.set.eval stoolap (fun _ => row) = .error guardFault) := by
  induction assignments generalizing sets with
  | nil =>
      subst same
      exact ⟨.inl ⟨[], rfl⟩, by simp [setValues]⟩
  | cons assignment assignments ih =>
      subst same
      obtain ⟨first, others⟩ := List.forall_mem_cons.mp outcome
      obtain ⟨rest, restIff⟩ := ih rfl others
      simp only [List.map_cons, setValues, List.mem_cons, exists_eq_or_imp, ← restIff]
      rcases first with ⟨v, ran⟩ | failed
      · rcases rest with ⟨values, restRan⟩ | failed
        · simp [ran, restRan, bind, Except.bind, pure, Except.pure]
        · simp [ran, failed, bind, Except.bind]
      · simp [failed, bind, Except.bind]

/-- What becomes of a row the condition takes. -/
theorem updateRow_taken {foundRows : Bool} (writes : ∀ assignment ∈ update.assignments,
      Writes assignment.field assignment.item assignment.value)
    (runs : update.Runs stoolap rows) (member : row ∈ rows) (taken : update.Takes stoolap row) {sets : List (String × Sql)}
    (same : sets = update.sets) {filter : Option Sql}
    (sameFilter : filter = updateFilter foundRows update.filter (update.assignments.map (Assignment.change update.name))) :
    ((∃ after, updateRow stoolap sets filter row = .ok after) ∨ updateRow stoolap sets filter row = .error guardFault) ∧
      (updateRow stoolap sets filter row = .error guardFault ↔
        ∃ assignment ∈ update.assignments, ∃ value,
          assignment.value.plain.eval stoolap (fun _ => row) = .ok value ∧ Unfit assignment.field value) := by
  have outcome : ∀ assignment ∈ update.assignments,
      ∃ value, assignment.value.plain.eval stoolap (fun _ => row) = .ok value ∧
        (Unfit assignment.field value → assignment.value.set.eval stoolap (fun _ => row) = .error guardFault ∧
          assignment.value.stored.eval stoolap (fun _ => row) = .ok value) ∧
        (¬ Unfit assignment.field value → (∃ v, assignment.value.set.eval stoolap (fun _ => row) = .ok v) ∧
          ∃ v, assignment.value.stored.eval stoolap (fun _ => row) = .ok v) := by
    intro assignment assigned
    obtain ⟨value, ran, ofClass⟩ := runs.values row member taken assignment assigned
    exact ⟨value, ran, assignment_outcome (writes assignment assigned) (runs.proper assignment assigned) ran ofClass⟩
  have stored : ∀ assignment ∈ update.assignments,
      ∃ new, assignment.value.stored.eval stoolap (fun _ => row) = .ok new := by
    intro assignment assigned
    obtain ⟨value, -, unfit, fits⟩ := outcome assignment assigned
    by_cases holds : Unfit assignment.field value
    · exact ⟨value, (unfit holds).2⟩
    · exact (fits holds).2
  have unfitIff : (∃ assignment ∈ update.assignments,
        assignment.value.set.eval stoolap (fun _ => row) = .error guardFault) ↔
      ∃ assignment ∈ update.assignments, ∃ value,
        assignment.value.plain.eval stoolap (fun _ => row) = .ok value ∧ Unfit assignment.field value := by
    constructor
    · rintro ⟨assignment, assigned, failed⟩
      obtain ⟨value, ran, -, fits⟩ := outcome assignment assigned
      refine ⟨assignment, assigned, value, ran, ?_⟩
      by_contra holds
      obtain ⟨v, ran⟩ := (fits holds).1
      rw [ran] at failed
      cases failed
    · rintro ⟨assignment, assigned, value, ran, holds⟩
      obtain ⟨other, otherRan, unfit, -⟩ := outcome assignment assigned
      rw [ran] at otherRan
      cases otherRan
      exact ⟨assignment, assigned, (unfit holds).1⟩
  obtain ⟨b, tested, bIff⟩ := changes_eval stored
  have chosen := takes_taken foundRows taken tested
  rw [← sameFilter] at chosen
  have values := setValues_outcome same fun assignment assigned => by
    obtain ⟨value, -, unfit, fits⟩ := outcome assignment assigned
    by_cases holds : Unfit assignment.field value
    · exact .inr (unfit holds).1
    · exact .inl (fits holds).1
  rw [unfitIff] at values
  rw [← values.2]
  generalize written : (foundRows || _ || b) = decision at chosen
  cases decision with
  | false =>
      have quiet : updateRow stoolap sets filter row = .ok (row, false) := by
        simp [updateRow, chosen, bind, Except.bind, pure, Except.pure]
      refine ⟨.inl ⟨_, quiet⟩, ?_⟩
      rw [quiet, values.2]
      refine ⟨nofun, ?_⟩
      rintro ⟨assignment, assigned, value, ran, holds⟩
      obtain ⟨other, otherRan, unfit, -⟩ := outcome assignment assigned
      rw [ran] at otherRan
      cases otherRan
      have changed : b = true := bIff.mpr ⟨assignment, assigned, value, (unfit holds).2,
        unfit_distinct (runs.stored row member assignment assigned) holds⟩
      simp [changed] at written
  | true =>
      have writing : updateRow stoolap sets filter row =
          (do return (storeAll row (← setValues stoolap row sets), true)) := by
        simp [updateRow, chosen, bind, Except.bind]
      rw [writing]
      rcases values.1 with ⟨new, ran⟩ | failed
      · rw [ran]
        exact ⟨.inl ⟨_, rfl⟩, by simp [bind, Except.bind, pure, Except.pure]⟩
      · rw [failed]
        exact ⟨.inr rfl, by simp [bind, Except.bind]⟩

/-- The rest of the table does not see a row the condition does not take. -/
theorem updateRow_untaken (runs : update.Runs stoolap rows) (member : row ∈ rows)
    (untaken : ¬ update.Takes stoolap row) (foundRows : Bool) (sets : List (String × Sql)) (changes : List Sql) :
    updateRow stoolap sets (updateFilter foundRows update.filter changes) row = .ok (row, false) := by
  cases filter : update.filter with
  | none => exact (untaken (by rw [Update.Takes, filter]; rfl)).elim
  | some condition =>
      obtain ⟨it, sql⟩ := condition
      obtain ⟨t, ran, nullable⟩ := runs.condition row member it sql filter
      have notTrue : t ≠ some true := by
        rintro rfl
        exact untaken (by rw [Update.Takes, filter]; exact takes_iff.mpr ran)
      simp [updateRow, takes_untaken foundRows changes ran notTrue nullable, bind, Except.bind, pure, Except.pure]

end Rows

/-- An accepted UPDATE fails with the guard's overflow exactly when a row its
condition takes gets a value its column cannot hold. For the other rows nothing
but the condition matters: whatever the SET values and the tests are, they
stay as they are. -/
theorem range_guard_exact {trustBin : Bool} {context : ModifyContext} {sel : ModifySelect} {filter : Option Item}
    {name : String} {sets : List (String × Sql)} {where_ : Option Sql} {count : Option ModifyCount}
    {guard : Option ModifyGuard}
    (accepted : genModify trustBin context sel filter = .ok (.update name sets where_, count, guard)) :
    (∃ update : Update, update.Of sel filter ∧ .update name sets where_ = update.statement context.foundRows) ∧
      ∀ update : Update, update.Of sel filter → .update name sets where_ = update.statement context.foundRows →
        ∀ (stoolap : Engine) (rows : List TableRow), update.Runs stoolap rows →
          ((Statement.update name sets where_).exec stoolap rows = .error guardFault ↔
            ∃ row ∈ rows, update.Takes stoolap row ∧ ∃ assignment ∈ update.assignments, ∃ value,
              assignment.value.plain.eval stoolap (fun _ => row) = .ok value ∧ Unfit assignment.field value) ∧
          ∀ row ∈ rows, ¬ update.Takes stoolap row → ∀ otherSets otherChanges,
            updateRow stoolap otherSets (updateFilter context.foundRows update.filter otherChanges) row =
              .ok (row, false) := by
  refine ⟨genModify_parts accepted, ?_⟩
  intro update parts written stoolap rows runs
  refine ⟨?_, fun row member untaken otherSets otherChanges =>
    updateRow_untaken runs member untaken context.foundRows otherSets otherChanges⟩
  cases written
  have taken (row : TableRow) (member : row ∈ rows) (taken : update.Takes stoolap row) :=
    updateRow_taken parts.writes runs member taken rfl (rfl : updateFilter context.foundRows _ _ = _)
  have untaken (row : TableRow) (member : row ∈ rows) (untaken : ¬ update.Takes stoolap row) :=
    updateRow_untaken runs member untaken context.foundRows update.sets
      (update.assignments.map (Assignment.change update.name))
  have only : ∀ row ∈ rows, ∀ fault, updateRow stoolap update.sets
      (updateFilter context.foundRows update.filter (update.assignments.map (Assignment.change update.name))) row =
        .error fault → fault = guardFault := by
    intro row member fault failed
    by_cases takes : update.Takes stoolap row
    · rcases (taken row member takes).1 with ⟨after, ran⟩ | guardFailed
      · rw [ran] at failed
        cases failed
      · rw [guardFailed] at failed
        cases failed
        rfl
    · rw [untaken row member takes] at failed
      cases failed
  have whole : (Statement.exec stoolap (update.statement context.foundRows) rows = .error guardFault) ↔
      rows.mapM (updateRow stoolap update.sets (updateFilter context.foundRows update.filter
        (update.assignments.map (Assignment.change update.name)))) = .error guardFault := by
    rw [Update.statement, Statement.exec]
    cases rows.mapM (updateRow stoolap update.sets _) <;> simp [bind, Except.bind, pure, Except.pure]
  refine whole.trans ((ExceptList.mapM_error_iff only).trans ?_)
  constructor
  · rintro ⟨row, member, failed⟩
    by_cases takes : update.Takes stoolap row
    · exact ⟨row, member, takes, (taken row member takes).2.mp failed⟩
    · rw [untaken row member takes] at failed
      cases failed
  · rintro ⟨row, member, takes, unfit⟩
    exact ⟨row, member, (taken row member takes).2.mpr unfit⟩

/-- `UPDATE t SET b = b + 100 WHERE a > 0`, `b` a TINYINT. -/
def tinyField : Field := { intField "b" with realType := .tiny }

def plusHundred : Item :=
  .func (intAttrs false) false (.named .plus) [.field (intAttrs false) (some tinyField), .const (intAttrs false) (.int 100)]

def positive : Item :=
  .func (intAttrs true) false (.compare .gt .other none) [intColumn "a", .const (intAttrs false) (.int 0)]

def tinyUpdate : ModifySelect where
  tables := [.mk (.base 0 "t") none false false]
  targets := [.field (intAttrs false) (some tinyField)]
  values := [plusHundred]
  checkConstraints := false
  updateDefaults := false
  primaryKey := none

def strictContext : ModifyContext where
  update := true
  strict := true
  foundRows := false
  zeroForNegativeZero := true

def tinyParts : Update where
  name := "\"t\""
  filter := some (positive, .paren (.compare .gt (.column "\"t\"" "a") (.integer 0)))
  assignments := [⟨tinyField, plusHundred,
    .of (.paren (.arithmetic .add (.column "\"t\"" "b") (.integer 100))) (.range (-128) 127)⟩]

def tinyRow (a b : Option Int64) : TableRow := fun column =>
  if column = "a" then a.map .integer else b.map .integer

theorem tinyParts_of : tinyParts.Of tinyUpdate (some positive) where
  targets := .cons ⟨_, rfl⟩ .nil
  values := ⟨[], rfl⟩
  writes assignment member := by
    obtain rfl := List.mem_singleton.mp member
    exact .of ⟨{ newGen false with aliases := [(0, "\"t\"")] }, _, rfl⟩ (.range rfl rfl)
  filter := rfl
  condition it sql same := by
    cases same
    exact ⟨{ newGen false with aliases := [(0, "\"t\"")] }, _, rfl⟩

/-- The condition is NULL for the first row and TRUE for the second. -/
def tinyRows : List TableRow := [tinyRow none (some 100), tinyRow (some 1) (some 100)]

theorem tinyParts_runs : tinyParts.Runs Engine.reference tinyRows where
  proper assignment member := by
    obtain rfl := List.mem_singleton.mp member
    refine ⟨fun varchar => ?_, fun attrs bytes datetime time same => ?_⟩
    · contradiction
    · cases same
  condition row member it sql same := by
    cases same
    simp only [tinyRows, List.mem_cons, List.not_mem_nil, or_false] at member
    rcases member with rfl | rfl
    · exact ⟨none, rfl, by decide⟩
    · exact ⟨some true, rfl, fun _ => nofun⟩
  values row member taken assignment assigned := by
    obtain rfl := List.mem_singleton.mp assigned
    simp only [tinyRows, List.mem_cons, List.not_mem_nil, or_false] at member
    rcases member with rfl | rfl <;> exact ⟨some (.integer 200), rfl, ⟨200, rfl⟩⟩
  stored row member assignment assigned := by
    obtain rfl := List.mem_singleton.mp assigned
    have hundred : Fits tinyField (some (.integer 100)) := by
      refine ⟨fun least most range => ?_, fun varchar => ?_⟩
      · cases range
        exact ⟨100, rfl, by decide⟩
      · contradiction
    simp only [tinyRows, List.mem_cons, List.not_mem_nil, or_false] at member
    rcases member with rfl | rfl <;> exact hundred

theorem range_guard_exact_sample :
    (Statement.update "\"t\"" tinyParts.sets (updateFilter false tinyParts.filter
        (tinyParts.assignments.map (Assignment.change "\"t\"")))).exec Engine.reference tinyRows = .error guardFault ∧
      updateRow Engine.reference tinyParts.sets (updateFilter false tinyParts.filter [.null])
        (tinyRow none (some 100)) = .ok (tinyRow none (some 100), false) := by
  have exact := (@range_guard_exact false strictContext tinyUpdate (some positive) _ _ _ _ _ rfl).2
    tinyParts tinyParts_of rfl Engine.reference tinyRows tinyParts_runs
  refine ⟨exact.1.mpr ⟨tinyRow (some 1) (some 100), by simp [tinyRows], rfl, _, List.mem_singleton_self _,
    some (.integer 200), rfl, -128, 127, rfl, .inr (by decide)⟩, ?_⟩
  refine exact.2 _ (by simp [tinyRows]) ?_ _ _
  rw [Update.Takes]
  decide

end StoolapMariadb.SqlGen
