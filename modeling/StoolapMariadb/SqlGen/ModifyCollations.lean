import StoolapMariadb.Lib.ExceptList
import StoolapMariadb.SqlGen.Collations
import StoolapMariadb.SqlGen.Update

namespace StoolapMariadb.SqlGen

/-! The same for UPDATE and DELETE, whose SET values the generator compares
itself, and the guarantee for every statement. -/

open StateExcept
open StoolapMariadb.Types (Charset)

def Statement.places : Statement → List Place
  | .update _ sets filter => allPlaces (sets.map Prod.snd) ++ optionalPlaces filter
  | .delete _ filter => optionalPlaces filter

def ModifyCount.places (count : ModifyCount) : List Place := optionalPlaces count.filter

def optionCountPlaces : Option ModifyCount → List Place
  | none => []
  | some count => count.places

def ModifySelect.comparisons (sel : ModifySelect) (filter : Option Item) : List Compared :=
  itemsComparisons sel.values ++ optionComparisons filter

/-- What a SET value is written as, and what its column will hold. -/
def Stores (targets values : List Item) (fl : Field) (v : Item) (value stored : Sql) : Prop :=
  ∃ context attrs g last, (Item.field attrs (some fl), v) ∈ targets.zip values ∧ Distrusts g ∧
    assignment context (.field attrs (some fl)) fl v g = .ok ((value, stored), last)

/-- A place of an UPDATE or DELETE. Besides what the statement compares, a
checked value is compared as a number, its length as one, and what does not fit
of it with nothing at all; and a column with what it will hold, which MariaDB
compares as the bytes of two records. No collation decides these. -/
inductive ModifyBacked (sel : ModifySelect) (filter : Option Item) : Place → Prop where
  | own {place} (backed : Backed (sel.comparisons filter) place) : ModifyBacked sel filter place
  | range {v value bound} (assigned : v ∈ sel.values) (valueOf : Wrote v value) (number : (cls v).numeric = true) :
      ModifyBacked sel filter (.pair (.paren value) (.integer bound))
  | length {v value most} (assigned : v ∈ sel.values) (valueOf : Wrote v value) :
      ModifyBacked sel filter (.pair (.call .charLength [.paren value]) (.integer most))
  | nothingLeft {v value most} (assigned : v ∈ sel.values) (valueOf : Wrote v value) :
      ModifyBacked sel filter (.pair (lengthRest (.paren value) most) (.text []))
  | changed {fl v value stored name} (stores : Stores sel.targets sel.values fl v value stored) :
      ModifyBacked sel filter (.pair (.column name fl.name) stored)

section Checks

variable {value tooLong : Sql} {place : Place}

theorem rangeCheck_places {least most : Int64} (member : place ∈ (rangeCheck value least most).places) :
    place ∈ value.places ∨ ∃ bound, place = .pair value (.integer bound) := by
  simp only [rangeCheck, guardOverflow, Sql.places, Arms.places, allPlaces, List.append_nil, List.nil_append,
    List.cons_append, List.mem_cons, List.mem_append] at member
  rcases member with rfl | (inValue | rfl | inValue) | inValue
  · exact .inr ⟨least, rfl⟩
  · exact .inl inValue
  · exact .inr ⟨most, rfl⟩
  · exact .inl inValue
  · exact .inl inValue

theorem lengthRest_places (value : Sql) (length : Nat) : (lengthRest value length).places = value.places := by
  simp [lengthRest, Sql.places, allPlaces, callPlaces]

theorem lengthCheck_places {length : Nat} (member : place ∈ (lengthCheck value length tooLong).places) :
    place ∈ value.places ∨ place ∈ tooLong.places ∨
      place = .pair (.call .charLength [value]) (.integer (Int64.ofNat length)) ∨
      place = .pair (lengthRest value length) (.text []) := by
  simp only [lengthCheck, Sql.places, Arms.places, allPlaces, callPlaces, lengthRest_places, List.append_nil,
    List.nil_append, List.cons_append, List.mem_cons, List.mem_append] at member
  tauto

end Checks

section Values

variable {sel : ModifySelect} {filter : Option Item} {v : Item}

/-- All of these places are of the kinds a SET or a WHERE may have. -/
def AllModifyBacked (sel : ModifySelect) (filter : Option Item) (places : List Place) : Prop :=
  ∀ place ∈ places, ModifyBacked sel filter place

theorem nothing_backed : AllModifyBacked sel filter [] := fun _ member => absurd member List.not_mem_nil

theorem comparisons_subset {items : List Item} (member : v ∈ items) : v.comparisons ⊆ itemsComparisons items := by
  induction items with
  | nil => cases member
  | cons it items ih =>
      rcases List.mem_cons.mp member with rfl | among
      · exact List.subset_append_left _ _
      · exact List.Subset.trans (ih among) (List.subset_append_right _ _)

theorem value_backed (assigned : v ∈ sel.values) :
    Yields Distrusts (Child.expr ⟨v, node v, query v⟩) fun sql =>
      Wrote v sql ∧ AllModifyBacked sel filter sql.places := by
  have told : v.comparisons ⊆ sel.comparisons filter :=
    List.Subset.trans (comparisons_subset assigned) (List.subset_append_left _ _)
  have backs : Child.Backs (sel.comparisons filter) ⟨v, node v, query v⟩ :=
    ⟨rfl, node_backed v told, query_backed v told⟩
  exact backs.expr.imp fun sql both => ⟨both.1, fun place member => .own (both.2 place member)⟩

theorem strCheck_length (fl : Field) (v : Item) :
    Yields Distrusts (strCheck fl v) fun check => ∀ least most, check ≠ .range least most := by
  refine .ite (fun _ => .throw) fun _ => .ite (fun _ => .throw) fun _ => ?_
  split
  · exact .ite (fun _ => .throw) fun _ => .pure fun _ _ => by rintro ⟨⟩
  · exact .throw
  · exact .ite (fun _ => .throw) fun _ => .ite (fun _ => .throw) fun _ => .pure fun _ _ => by rintro ⟨⟩

theorem temporalCheck_none (fl : Field) (v : Item) :
    Yields Distrusts (temporalCheck fl v) fun check => ∀ least most, check ≠ .range least most := by
  unfold temporalCheck
  split
  · exact .ite (fun _ => .throw) fun _ => .pure fun _ _ => by rintro ⟨⟩
  · exact .throw

/-- Only an integer column's value is checked against a range. -/
theorem valueCheck_range (context : ModifyContext) (fl : Field) (v : Item) (kind : Cls) :
    Yields Distrusts (valueCheck context fl v kind) fun check =>
      ∀ least most, check = .range least most → kind = .int := by
  cases kind with
  | int =>
      refine .ite (fun _ => .throw) fun _ => ?_
      split
      · exact .pure fun _ _ _ => rfl
      · exact .ite (fun _ => .throw) fun _ => .pure fun _ _ _ => rfl
      · exact .pure fun _ _ _ => rfl
  | real =>
      exact .ite (fun _ => .throw) fun _ => .ite (fun _ => .throw) fun _ => .pure fun _ _ same => by cases same
  | str => exact (strCheck_length fl v).imp fun _ other least most same => absurd same (other least most)
  | datetime | time | tstamp | unsafe_ =>
      exact (temporalCheck_none fl v).imp fun _ other least most same => absurd same (other least most)

theorem guarded_distrusts (context : ModifyContext) (fl : Field) (error : GuardError) :
    Yields Distrusts (guarded context fl error) fun _ => True :=
  .ite (fun _ => .throw) fun _ => .read fun _ _ => .ite (fun _ => .throw) fun _ => modify_distrusts fun _ => rfl

/-- What a SET writes, and what its column will hold. -/
theorem assignment_backed (context : ModifyContext) (filter : Option Item) (target : Item) (fl : Field)
    (assigned : v ∈ sel.values) :
    Yields Distrusts (assignment context target fl v) fun result =>
      AllModifyBacked sel filter result.1.places ∧ AllModifyBacked sel filter result.2.places := by
  unfold assignment
  split
  · exact .throw
  · exact .ite (fun _ => .throw) fun _ => .pure ⟨nothing_backed, nothing_backed⟩
  · refine .ite (fun _ => .throw) fun _ => .ite (fun _ => .throw) fun kinds =>
      (valueCheck_range context fl v (cls target)).bind fun check ranged => ?_
    have written := @value_backed sel filter v assigned
    cases check with
    | none => exact written.bind fun _ both => .pure ⟨both.2, both.2⟩
    | plusZero =>
        have zeroed {sql : Sql} (below : AllModifyBacked sel filter sql.places) :
            AllModifyBacked sel filter (Sql.arithmetic .add sql (.number "0.0")).places :=
          List.forall_mem_append.mpr ⟨below, nothing_backed⟩
        exact written.bind fun _ both => .pure ⟨zeroed both.2, zeroed both.2⟩
    | range least most =>
        have number : (cls v).numeric = true := by
          rw [ranged least most rfl] at kinds
          cases kind : cls v with
          | int | real => rfl
          | _ => simp [kind] at kinds
        refine (guarded_distrusts _ _ _).bind fun _ _ => written.bind fun sql both =>
          .pure ⟨fun place member => ?_, both.2⟩
        rcases rangeCheck_places member with inValue | ⟨bound, rfl⟩
        · exact both.2 place inValue
        · exact .range assigned both.1 number
    | length most =>
        have checked {sql tooLong : Sql} (wrote : Wrote v sql) (below : AllModifyBacked sel filter sql.places)
            (other : AllModifyBacked sel filter tooLong.places) :
            AllModifyBacked sel filter (lengthCheck (.paren sql) most tooLong).places := by
          intro place member
          rcases lengthCheck_places member with inValue | inOther | rfl | rfl
          · exact below place inValue
          · exact other place inOther
          · exact .length assigned wrote
          · exact .nothingLeft assigned wrote
        exact (guarded_distrusts _ _ _).bind fun _ _ => written.bind fun _ both =>
          .pure ⟨checked both.1 both.2 nothing_backed, checked both.1 both.2 both.2⟩

end Values

section Statements

variable {sel : ModifySelect} {filter : Option Item}

theorem setList_backed (context : ModifyContext) (filter : Option Item) (table : TableId) (name : String)
    {targets values : List Item}
    (among : ∀ pair ∈ targets.zip values, pair ∈ sel.targets.zip sel.values) :
    Yields Distrusts (setList context table name targets values) fun result =>
      AllModifyBacked sel filter (allPlaces (result.1.map Prod.snd)) ∧
        AllModifyBacked sel filter (allPlaces result.2) := by
  induction targets generalizing values with
  | nil => exact .pure ⟨nothing_backed, nothing_backed⟩
  | cons target targets ih =>
      cases values with
      | nil => exact .throw
      | cons v values =>
          obtain ⟨here, rest⟩ := List.forall_mem_cons.mp among
          unfold setList
          split
          · rename_i attrs fl
            refine .ite (fun _ => .throw) fun _ =>
              (assignment_backed context filter _ fl (List.of_mem_zip here).2).ran.bind fun result both => ?_
            obtain ⟨value, stored⟩ := result
            obtain ⟨⟨g, last, distrusts, ran⟩, ofValue, ofStored⟩ := both
            refine .bind (modify_distrusts fun _ => rfl) fun _ _ => (ih rest).bind fun others more =>
              .pure ⟨List.forall_mem_append.mpr ⟨ofValue, more.1⟩, ?_⟩
            have changed : ModifyBacked sel filter (.pair (.column name fl.name) stored) :=
              .changed ⟨context, attrs, g, last, here, distrusts, ran⟩
            exact List.forall_mem_append.mpr ⟨List.forall_mem_cons.mpr ⟨changed, ofStored⟩, more.2⟩
          · exact .throw

theorem whereCondition_backed (filter : Option Item) :
    Yields Distrusts (whereCondition filter) fun cond =>
      AllModifyBacked sel filter (optionalPlaces (cond.map Prod.snd)) := by
  cases filter with
  | none => exact .pure nothing_backed
  | some it =>
      have told : it.comparisons ⊆ sel.comparisons (some it) := List.subset_append_right _ _
      have backs : Child.Backs (sel.comparisons (some it)) ⟨it, node it, query it⟩ :=
        ⟨rfl, node_backed it told, query_backed it told⟩
      exact backs.condition.bind fun _ below => .pure fun place member => .own (below place member)

theorem changedFilter_backed {cond : Option (Item × Sql)} {changes : List Sql}
    (filtered : AllModifyBacked sel filter (optionalPlaces (cond.map Prod.snd)))
    (changed : AllModifyBacked sel filter (allPlaces changes)) :
    AllModifyBacked sel filter (changedFilter cond changes).places := by
  cases cond with
  | none => exact changed
  | some both =>
      obtain ⟨it, cond⟩ := both
      unfold changedFilter
      dsimp only
      split
      · exact List.forall_mem_append.mpr ⟨filtered, List.forall_mem_append.mpr ⟨filtered,
          List.forall_mem_append.mpr ⟨changed, nothing_backed⟩⟩⟩
      · exact List.forall_mem_append.mpr ⟨filtered,
          List.forall_mem_append.mpr ⟨changed, nothing_backed⟩⟩

theorem modifyStatement_backed (context : ModifyContext) :
    Yields Distrusts (modifyStatement context sel filter) fun result =>
      AllModifyBacked sel filter result.1.places ∧ AllModifyBacked sel filter (optionCountPlaces result.2) := by
  unfold modifyStatement
  split
  · refine .bind (modify_distrusts fun _ => rfl) fun _ _ => .ite (fun _ => .ite (fun _ => .throw) fun _ =>
      .ite (fun _ => .throw) fun _ => ?_) fun _ => ?_
    · refine (setList_backed context filter _ _ fun _ => id).bind fun result both => ?_
      obtain ⟨sets, changes⟩ := result
      refine .bind (modify_distrusts fun _ => rfl) fun _ _ => (whereCondition_backed filter).bind fun cond filtered =>
        .ite (fun _ => .pure ⟨List.forall_mem_append.mpr ⟨both.1, filtered⟩, nothing_backed⟩) fun _ =>
          .pure ⟨List.forall_mem_append.mpr ⟨both.1, changedFilter_backed filtered both.2⟩, filtered⟩
    · exact (whereCondition_backed filter).bind fun cond filtered => .pure ⟨filtered, nothing_backed⟩
  · exact .throw

end Statements

/-- `utf8mb4_nopad_bin`. -/
def nopadBin : Charset where
  csName := "utf8mb4"
  binsort := true
  nopad := true
  unicode := true
  isBinary := false
  mbminlen := 1
  mbmaxlen := 4

def textAttrs : Attrs := { intAttrs false with cmpType := .string, collation := some nopadBin }

/-- `s`, a VARCHAR column. -/
def textColumn : Item :=
  .field textAttrs (some { intField "s" with realType := .varchar, charset := some nopadBin, charLength := 5 })

/-- `SELECT DISTINCT s FROM t WHERE s = 'x' ORDER BY s`. -/
def distinctSelect : Select :=
  .mk { olap := false, tvc := false, withTies := false, foundRows := false, distinct := true, withSumFunc := false,
        mergeable := false, haveWindowFuncs := false, uncacheableRand := false, linkage := .other,
        distinctLeg := false, limit := none }
    [.mk (.base 0 "t") none false false] [textColumn]
    (some (.func (intAttrs true) false (.compare .eq .other (some nopadBin))
      [textColumn, .const textAttrs (.string [0x78] none none)]))
    [] none [.mk textColumn false]

def distinctQuery : Query :=
  .select true (some [.mk (.column "t0" "s") none]) [.mk none (.table "t" "t0") []]
    [.paren (.compare .eq (.column "t0" "s") (.text [0x78]))] [] none [.mk (.column "t0" "s") (some false)] none

/-- `UPDATE t SET s = 'y'`. -/
def textUpdate : ModifySelect where
  tables := [.mk (.base 0 "t") none false false]
  targets := [textColumn]
  values := [.const textAttrs (.string [0x79] none none)]
  checkConstraints := false
  updateDefaults := false
  primaryKey := none

/-- Where stoolap compares strings in a statement generated without trusting
every collation, MariaDB compares them by a binary NO PAD one; an UPDATE's own
checks and its test for a change are of bytes. -/
theorem compares_bytes_as_mariadb :
    (∀ select query, genSelect false select = .ok query → ∀ place ∈ query.places, Backed select.comparisons place) ∧
      (∀ unit query, genUnit false unit = .ok query → ∀ place ∈ query.places, Backed unit.comparisons place) ∧
      ∀ context sel filter statement count guard,
        genModify false context sel filter = .ok (statement, count, guard) →
          ∀ place ∈ statement.places ++ optionCountPlaces count, ModifyBacked sel filter place := by
  have start : Distrusts (newGen false) := rfl
  refine ⟨fun select query accepted => ?_, fun unit query accepted => ?_,
    fun context sel filter statement count guard accepted => ?_⟩
  · obtain ⟨⟨written, last⟩, ran, rfl⟩ := ExceptList.map_ok.mp accepted
    exact (select_backed true none none select (List.Subset.refl _) _ _ _ start ran).2
  · obtain ⟨⟨written, last⟩, ran, rfl⟩ := ExceptList.map_ok.mp accepted
    exact (unit_backed none unit (List.Subset.refl _) _ _ _ start ran).2
  · obtain ⟨⟨⟨written, rows⟩, last⟩, ran, same⟩ := ExceptList.bind_ok.mp accepted
    cases same
    obtain ⟨inStatement, inCount⟩ := (modifyStatement_backed context _ _ _ start ran).2
    exact List.forall_mem_append.mpr ⟨inStatement, inCount⟩

theorem compares_bytes_as_mariadb_sample :
    distinctQuery.places.length = 3 ∧
      (∀ place ∈ distinctQuery.places, Backed distinctSelect.comparisons place) ∧
      (∀ place ∈ [Place.pair (.column "\"t\"" "s") (.paren (.text [0x79]))],
        ModifyBacked textUpdate none place) :=
  ⟨rfl, compares_bytes_as_mariadb.1 distinctSelect distinctQuery rfl,
    compares_bytes_as_mariadb.2.2 ⟨true, true, false, true⟩ textUpdate none _ _ _ rfl⟩

/-- A VARCHAR(5) column of `utf8mb4_general_ci`. -/
def generalCi : Charset := { nopadBin with binsort := false, nopad := false }

def ciColumn (name : String) : Item :=
  .field { textAttrs with collation := some generalCi }
    (some { intField name with realType := .varchar, charset := some generalCi, charLength := 5 })

/-- `UPDATE t SET s = r`. -/
def copyUpdate : ModifySelect :=
  { textUpdate with targets := [ciColumn "s"], values := [ciColumn "r"] }

def copied : Sql := .paren (.column "\"t\"" "r")

/-- An UPDATE compares the strings of two columns, and one with the empty text,
where its own items compare nothing and no collation is binary. -/
theorem update_compares_any_collation :
    ∃ statement count guard, genModify false ⟨true, true, false, true⟩ copyUpdate none = .ok (statement, count, guard) ∧
      Place.pair (.column "\"t\"" "s") (lengthCheck copied 5 copied) ∈ statement.places ∧
      Place.pair (lengthRest copied 5) (.text []) ∈ statement.places ∧
      cls (ciColumn "s") = .str ∧ ¬ Bytewise (ciColumn "s").attrs.collation ∧
      ¬ ∀ place ∈ statement.places, Backed (copyUpdate.comparisons none) place := by
  have changed : Place.pair (.column "\"t\"" "s") (lengthCheck copied 5 copied) ∈
      Sql.places (.paren (.connect .or [.compare .isDistinctFrom (.column "\"t\"" "s")
        (lengthCheck copied 5 copied)])) := List.mem_cons_self
  have rest : Place.pair (lengthRest copied 5) (.text []) ∈ (lengthCheck copied 5 guardOverflow).places := by
    simp [lengthCheck, Sql.places, Arms.places, allPlaces]
  refine ⟨_, _, _, rfl, List.mem_append_right _ changed, List.mem_append_left _ (List.mem_append_left _ rest), rfl,
    ?_, fun backed => ?_⟩
  · rintro ⟨-, cs, isCs, binary, -⟩
    obtain rfl := Option.mem_some.mp isCs
    cases binary
  · cases backed _ (List.mem_append_right _ changed) with
    | pair compared => cases compared

end StoolapMariadb.SqlGen
