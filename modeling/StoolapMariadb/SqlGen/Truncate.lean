import StoolapMariadb.Lib.Utf8
import StoolapMariadb.SqlGen.Guard

namespace StoolapMariadb.SqlGen

/-! A string assigned to a VARCHAR, by its characters: kept, cut of white
space, or too long. -/

open StoolapMariadb.Types (RealType)
open Utf8 (encode)

/-- The white space MariaDB cuts with a note. -/
def whiteSpace : List Char := [' ', '\t', '\n', '\x0b', '\x0c', '\r']

def text (chars : List Char) : Scalar := .text (encode chars)

theorem numchars_encode (chars : List Char) : numchars (encode chars) = chars.length := by
  induction chars with
  | nil => rfl
  | cons c chars ih =>
      obtain ⟨lead, tail, bytes, leads, continues⟩ := Utf8.utf8EncodeChar_shape c
      have none : tail.filter (fun byte => byte &&& 0xC0 ≠ 0x80) = [] := by
        simpa [List.filter_eq_nil_iff] using continues
      rw [numchars] at ih ⊢
      rw [Utf8.encode_cons, bytes, List.cons_append, List.filter_cons_of_pos (by simpa using leads),
        List.length_cons, List.filter_append, none, List.nil_append, ih, List.length_cons]

/-- A character's continuation bytes go with it, and no byte of the next. -/
theorem dropWhile_encode {tail : List UInt8} (continues : ∀ byte ∈ tail, byte &&& 0xC0 = 0x80) (chars : List Char) :
    (tail ++ encode chars).dropWhile isContinuation = encode chars := by
  have all : ∀ byte ∈ tail, isContinuation byte = true := by simpa [isContinuation] using continues
  rw [List.dropWhile_append_of_pos all]
  cases chars with
  | nil => rfl
  | cons c chars =>
      obtain ⟨lead, rest, bytes, leads, -⟩ := Utf8.utf8EncodeChar_shape c
      rw [Utf8.encode_cons, bytes, List.cons_append, List.dropWhile_cons_of_neg]
      simpa [isContinuation] using leads

theorem skipChars_encode (count : Nat) (chars : List Char) :
    skipChars count (encode chars) = encode (chars.drop count) := by
  induction count generalizing chars with
  | zero => rfl
  | succ count ih =>
      cases chars with
      | nil => rfl
      | cons c chars =>
          obtain ⟨lead, tail, bytes, -, continues⟩ := Utf8.utf8EncodeChar_shape c
          rw [Utf8.encode_cons, bytes, List.cons_append, skipChars, dropWhile_encode continues, ih,
            List.drop_succ_cons]

theorem takeChars_encode (count : Nat) (chars : List Char) :
    takeChars count (encode chars) = encode (chars.take count) := by
  have parts : encode chars = encode (chars.take count) ++ encode (chars.drop count) := by
    rw [encode, encode, encode, ← List.flatMap_append, List.take_append_drop]
  rw [takeChars, skipChars_encode, parts, List.length_append, Nat.add_sub_cancel, List.take_left']
  rfl

theorem solid_encode (chars : List Char) :
    (encode chars).filter (· ∉ asciiSpaces) = [] ↔ ∀ c ∈ chars, c ∈ whiteSpace := by
  have spaces : asciiSpaces = whiteSpace.map fun c => c.val.toUInt8 := by decide
  have ascii : ∀ c ∈ whiteSpace, c.utf8Size = 1 := fun c member =>
    beq_iff_eq.mp (List.all_eq_true.mp (show whiteSpace.all (fun c => c.utf8Size == 1) = true by decide) c member)
  have among (c : Char) := Utf8.utf8EncodeChar_among ascii c
  rw [← spaces] at among
  simp only [List.filter_eq_nil_iff, decide_eq_true_eq, not_not, encode, List.mem_flatMap, ← among]
  constructor
  · intro only c member byte byteIn
    exact only byte ⟨c, member, byteIn⟩
  · rintro only byte ⟨c, member, byteIn⟩
    exact only c member byte byteIn

section Stored

variable {stoolap : Engine} {columns : Columns} {value : Sql} {chars : List Char}

theorem eval_lengthCheck_chars (length : Nat) (other : Sql) (small : length < 2 ^ 62)
    (bounded : (encode chars).length < 2 ^ 63) (ran : value.eval stoolap columns = .ok (some (text chars))) :
    (lengthCheck value length other).eval stoolap columns =
      if chars.length ≤ length then .ok (some (text chars))
      else if (chars.drop length).all (· ∈ whiteSpace) then .ok (some (text (chars.take length)))
      else other.eval stoolap columns := by
  rw [eval_lengthCheck_text length other small bounded ran, numchars_encode, skipChars_encode, takeChars_encode]
  simp only [solid_encode, List.all_eq_true, decide_eq_true_eq]
  rfl

end Stored

/-- What a VARCHAR of `length` characters stores of a value, as the SQL assigns
it and as the test for a change has it. One that is too long overflows in the
one, and is a value no row can hold in the other. -/
def Truncates (stoolap : Engine) (columns : Columns) (length : Nat) (set stored : Sql) :
    Option (List Char) → Prop
  | none => set.eval stoolap columns = .ok none ∧ stored.eval stoolap columns = .ok none
  | some chars =>
      (chars.length ≤ length →
        set.eval stoolap columns = .ok (some (text chars)) ∧ stored.eval stoolap columns = .ok (some (text chars))) ∧
      (length < chars.length → (∀ c ∈ chars.drop length, c ∈ whiteSpace) →
        set.eval stoolap columns = .ok (some (text (chars.take length))) ∧
          stored.eval stoolap columns = .ok (some (text (chars.take length)))) ∧
      (length < chars.length → (∃ c ∈ chars.drop length, c ∉ whiteSpace) →
        set.eval stoolap columns = .error guardFault ∧
          ∃ kept, stored.eval stoolap columns = .ok kept ∧
            ∀ old : Option (List Char), (∀ chars ∈ old, chars.length ≤ length) →
              stoolap.compareValues .isDistinctFrom (old.map text) kept = some true)

section Assigned

variable {stoolap : Engine} {columns : Columns} {set stored : Sql} {length : Nat}

/-- A longer text differs from all a row can hold. -/
theorem distinct_of_longer {chars : List Char} (long : length < chars.length) (old : Option (List Char))
    (held : ∀ chars ∈ old, chars.length ≤ length) :
    stoolap.compareValues .isDistinctFrom (old.map text) (some (text chars)) = some true := by
  cases old with
  | none => rfl
  | some before =>
      have differ : encode before ≠ encode chars := by
        intro same
        have counts := congrArg numchars same
        have shorter := held before rfl
        rw [numchars_encode, numchars_encode] at counts
        omega
      have order : compareBytes (encode before) (encode chars) ≠ .eq := fun same => differ (compareBytes_eq_eq.mp same)
      simp [Engine.compareValues, text, Engine.compare, Comparison.holds, order]

/-- A value that is written as it is and fits the column. -/
theorem truncates_plain {value : Option (List Char)} (fits : ∀ chars ∈ value, chars.length ≤ length)
    (setRan : set.eval stoolap columns = .ok (value.map text))
    (storedRan : stored.eval stoolap columns = .ok (value.map text)) :
    Truncates stoolap columns length set stored value := by
  cases value with
  | none => exact ⟨setRan, storedRan⟩
  | some chars =>
      have short := fits chars rfl
      exact ⟨fun _ => ⟨setRan, storedRan⟩, fun long => by omega, fun long => by omega⟩

/-- The two expansions of the check around a value. -/
theorem truncates_lengthCheck {value : Sql} {result : Option (List Char)} (small : length < 2 ^ 62)
    (bounded : ∀ chars ∈ result, (encode chars).length < 2 ^ 63)
    (ran : value.eval stoolap columns = .ok (result.map text)) :
    Truncates stoolap columns length (lengthCheck value length guardOverflow) (lengthCheck value length value)
      result := by
  cases result with
  | none => exact ⟨eval_lengthCheck_null ran, eval_lengthCheck_null ran⟩
  | some chars =>
      have set := eval_lengthCheck_chars length guardOverflow small (bounded chars rfl) ran
      have stored := eval_lengthCheck_chars length value small (bounded chars rfl) ran
      refine ⟨fun short => ?_, fun long blank => ?_, fun long solid => ?_⟩
      · rw [if_pos short] at set stored
        exact ⟨set, stored⟩
      · have allBlank : (chars.drop length).all (· ∈ whiteSpace) = true := by simpa using blank
        rw [if_neg (by omega), if_pos allBlank] at set stored
        exact ⟨set, stored⟩
      · have notBlank : ¬ (chars.drop length).all (· ∈ whiteSpace) = true := by simpa using solid
        rw [if_neg (by omega), if_neg notBlank] at set stored
        rw [eval_guardOverflow] at set
        exact ⟨set, _, stored.trans ran, distinct_of_longer long⟩

end Assigned

/-- What an accepted assignment to a VARCHAR stores of every value, whatever
its characters. -/
theorem string_assignment_truncates {context : ModifyContext} {attrs : Attrs} {fl : Field} {v : Item}
    {g after : Gen} {set stored : Sql} (varchar : RealType.isVarchar fl.realType = true)
    (short : fl.charLength < 2 ^ 32)
    (string : ∀ attrs bytes datetime time, v = .const attrs (.string bytes datetime time) → attrs.boolType = false)
    (accepted : assignment context (.field attrs (some fl)) fl v g = .ok ((set, stored), after)) :
    ∃ setValue, Writes fl v setValue ∧ set = setValue.set ∧ stored = setValue.stored ∧
      ∀ (stoolap : Engine) (columns : Columns) (value : Option (List Char)),
        (∀ chars ∈ value, (encode chars).length < 2 ^ 63) →
        setValue.plain.eval stoolap columns = .ok (value.map text) →
        Truncates stoolap columns fl.charLength set stored value := by
  obtain ⟨setValue, writes, rfl, rfl⟩ := assignment_writes accepted
  refine ⟨setValue, writes, rfl, rfl, fun stoolap columns value bounded ran => ?_⟩
  have noRange : intRange fl = none := by
    cases realType : fl.realType <;> simp_all [intRange, RealType.isVarchar]
  cases writes with
  | null isNull =>
      have null : value = none := by
        cases value with
        | none => rfl
        | some chars =>
            rw [SetValue.plain, Sql.eval] at ran
            cases ran
      subst null
      exact ⟨ran, ran⟩
  | of written needed =>
      rename_i sql check
      obtain ⟨start, last, wrote⟩ := written
      cases needed with
      | unbounded noRange noLength plain =>
          rw [varchar] at noLength
          cases noLength
      | integer bounded fits =>
          rw [noRange] at bounded
          cases bounded
      | range int bounded =>
          rw [noRange] at bounded
          cases bounded
      | text _ fits =>
          refine truncates_plain (fun chars isText => ?_) ran ((eval_paren stoolap columns _).trans ran)
          obtain rfl : value = some chars := isText
          have literal : sql.eval stoolap columns = .ok (some (.text _)) := text_literal_eval (string _ _ _ _ rfl) wrote
          rw [SetValue.plain, literal] at ran
          have bytes := congrArg numchars (Scalar.text.inj (Option.some.inj (Except.ok.inj ran)))
          rw [numchars_encode] at bytes
          omega
      | length str _ small =>
          exact truncates_lengthCheck (by omega) bounded ((eval_paren stoolap columns _).trans ran)

def binCharset : Types.Charset where
  csName := "utf8mb4"
  binsort := true
  nopad := true
  unicode := true
  isBinary := false
  mbminlen := 1
  mbmaxlen := 4

def varcharField (name : String) (length : Nat) : Field :=
  { intField name with realType := .varchar, charset := some binCharset, charLength := length, fieldLength := 4 * length }

def stringAttrs : Attrs := { intAttrs false with cmpType := .string, collation := some binCharset }

/-- `SET b = a`, `b` a VARCHAR(3) and `a` a VARCHAR(10). -/
def copyColumn : Except String ((Sql × Sql) × Gen) :=
  assignment strictContext (.field stringAttrs (some (varcharField "b" 3)))
    (varcharField "b" 3) (.field stringAttrs (some (varcharField "a" 10))) oneTable

/-- Two spaces past the column go, an accented letter does not. -/
theorem string_assignment_truncates_sample :
    ∃ set stored after, copyColumn = .ok ((set, stored), after) ∧
      Truncates Engine.reference (fun _ _ => some (text "añb  ".toList)) 3 set stored (some "añb  ".toList) ∧
      Truncates Engine.reference (fun _ _ => some (text "añbé".toList)) 3 set stored (some "añbé".toList) := by
  refine ⟨_, _, _, rfl, ?_⟩
  obtain ⟨setValue, writes, sets, -, truncates⟩ :=
    @string_assignment_truncates strictContext stringAttrs (varcharField "b" 3)
      (.field stringAttrs (some (varcharField "a" 10))) oneTable _ _ _ rfl (by decide) (fun _ _ _ _ same => by cases same) rfl
  have plain : setValue.plain = .column "t0" "a" := by
    cases writes with
    | null isNull => cases isNull
    | of written needed =>
        cases needed with
        | unbounded noRange noLength plain => cases noLength
        | range int bounded => cases bounded
        | length str varchar small =>
            simp only [SetValue.set, lengthCheck, Sql.caseSearched.injEq, Arms.when.injEq, Sql.paren.injEq] at sets
            exact sets.2.1.symm
  have reads (columns : Columns) : setValue.plain.eval Engine.reference columns = .ok (columns "t0" "a") := by
    rw [plain, Sql.eval]
  exact ⟨truncates _ _ (some "añb  ".toList) (by decide) (reads _),
    truncates _ _ (some "añbé".toList) (by decide) (reads _)⟩

end StoolapMariadb.SqlGen
