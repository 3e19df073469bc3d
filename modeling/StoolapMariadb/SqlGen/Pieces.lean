import StoolapMariadb.Lib.Spelling
import StoolapMariadb.SqlGen.Lexing

namespace StoolapMariadb.SqlGen

/-! What is written token by token: valid tokens, of which two minus signs meet
only where one is written before a signed operand. -/

open Lexer (Symbol)
open Spelling

section Numbers

theorem number_valid (n : Nat) : (Tok.number (toString n)).Valid := numberPhase_repr n

theorem toString_ofNat (n : Nat) : toString (Int.ofNat n) = toString n := rfl

/-- The pieces of an integer: its digits, behind a minus sign for one below
zero. -/
theorem signed_ofNat (n : Nat) : signed (toString n) = [some (.number (toString n))] ∧ isSigned (toString n) = false := by
  have digits : ∀ c ∈ Nat.toDigits 10 n, c.isDigit = true := fun c member =>
    Nat.isDigit_of_mem_toDigits (by decide) (by decide) member
  have chars : (toString n).toList = Nat.toDigits 10 n := String.toList_ofList
  unfold signed isSigned
  rw [chars]
  cases found : Nat.toDigits 10 n with
  | nil => exact ⟨rfl, rfl⟩
  | cons c rest =>
      rw [found] at digits
      have digit := digits c List.mem_cons_self
      have other : c ≠ '-' := by
        rintro rfl
        cases digit
      refine ⟨?_, by simpa using other⟩
      split
      · rename_i same
        exact absurd (List.cons.inj same).1 other
      · rfl

theorem signed_negSucc (n : Nat) :
    signed (toString (Int.negSucc n)) = [some (.symbol .minus), some (.number (toString (n + 1)))] ∧
      isSigned (toString (Int.negSucc n)) = true := by
  have chars : (toString (Int.negSucc n)).toList = '-' :: (toString (n + 1)).toList := String.toList_append ..
  unfold signed isSigned
  rw [chars]
  refine ⟨?_, rfl⟩
  change [sign .minus, some (Tok.number (String.ofList (toString (n + 1)).toList))] = _
  rw [String.ofList_toList]
  rfl

theorem int_numberText (i : Int) : NumberText (toString i) := by
  cases i with
  | ofNat n =>
      rw [NumberText, toString_ofNat, (signed_ofNat n).1]
      simpa using number_valid n
  | negSucc n =>
      rw [NumberText, (signed_negSucc n).1]
      simpa [Tok.Valid] using number_valid (n + 1)

theorem isSigned_int {i : Int} (signed : isSigned (toString i) = true) : i < 0 := by
  cases i with
  | ofNat n =>
      rw [toString_ofNat, (signed_ofNat n).2] at signed
      cases signed
  | negSucc n => exact Int.negSucc_lt_zero n

end Numbers

section Aliases

theorem keywords_upper : (keywords.all fun k => (utf8 k.text).head?.any fun byte => byte < 0x61) = true := by decide +kernel

/-- An alias the generator makes up is a word, and no keyword. -/
theorem alias_valid {stem : String} {letter : Char} (isLetter : stem.toList = [letter])
    (small : letter = 't' ∨ letter = 'd') (n : Nat) : (aliasTok (stem ++ toString n)).Valid := by
  obtain ⟨byte, rest, digits, all⟩ := utf8_repr n
  have isWord : aliasTok (stem ++ toString n) = Tok.word (stem ++ toString n) := by
    unfold aliasTok
    rw [String.toList_append, isLetter]
    rcases small with rfl | rfl <;> rfl
  have bytes : ∃ first, utf8 (stem ++ toString n) = first :: byte :: rest ∧ Lexer.isLetter first = true ∧
      ¬ first < 0x61 := by
    rw [utf8_append, utf8_encode stem, isLetter, digits]
    rcases small with rfl | rfl
    · exact ⟨0x74, rfl, rfl, by decide⟩
    · exact ⟨0x64, rfl, rfl, by decide⟩
  obtain ⟨first, bytes, isFirst, high⟩ := bytes
  rw [isWord]
  refine ⟨⟨first, byte :: rest, bytes, isFirst, fun b member => ?_⟩, fun k member same => ?_⟩
  · rw [Lexer.isWordByte, all b member, Bool.or_true]
  · have upper := List.all_eq_true.mp keywords_upper k member
    rw [same, bytes] at upper
    exact high (by simpa using upper)

theorem unquote_doubled (name : List Char) :
    unquote (name.flatMap (fun c => if c = '"' then ['"', '"'] else [c]) ++ ['"']) = name := by
  induction name with
  | nil => rfl
  | cons c name ih =>
      rw [List.flatMap_cons]
      by_cases mark : c = '"'
      · rw [if_pos mark, mark]
        exact congrArg ('"' :: ·) ih
      · rw [if_neg mark, List.singleton_append, List.cons_append, unquote, ih]
        · exact fun _ same _ => mark same
        · exact fun same => absurd same mark

/-- A quoted name is read as the name. -/
theorem quoteIdent_tok (name : String) : aliasTok (quoteIdent name) = Tok.name name := by
  have chars : (quoteIdent name).toList =
      '"' :: (name.toList.flatMap (fun c => if c = '"' then ['"', '"'] else [c]) ++ ['"']) := by
    simp [quoteIdent]
  unfold aliasTok
  rw [chars]
  change Tok.name (String.ofList (unquote _)) = _
  rw [unquote_doubled, String.ofList_toList]

end Aliases

/-- A token that an expression may begin with. -/
def begins : Tok → Bool
  | .symbol s => s = .lparen || s = .minus
  | .keyword k =>
      match k with
      | .null_ | .not_ | .case_ | .cast_ | .exists_ | .function _ | .aggregate _ | .window _ => true
      | _ => false
  | .word _ | .name _ | .number _ | .string _ => true

section Begin

theorem signed_begins (text : String) :
    ∃ token rest, signed text = some token :: rest ∧ begins token = true ∧
      (token = Tok.symbol .minus ↔ isSigned text = true) := by
  unfold signed isSigned
  split
  · rename_i digits chars
    exact ⟨.symbol .minus, _, rfl, rfl, by simp [chars]⟩
  · rename_i unsigned
    refine ⟨.number text, _, rfl, rfl, by simp, fun minus => ?_⟩
    cases chars : text.toList with
    | nil => simp [chars] at minus
    | cons c rest =>
        rw [chars] at minus
        simp at minus
        exact absurd (minus ▸ chars) (unsigned rest)

theorem aliasTok_begins (tableAlias : String) : begins (aliasTok tableAlias) = true ∧ aliasTok tableAlias ≠ .symbol .minus := by
  unfold aliasTok
  split <;> exact ⟨rfl, by simp⟩

/-- The first piece is a token to begin with, a minus sign only of an expression
that binds as such. -/
def Sql.Begins (sql : Sql) : Prop :=
  ∃ token rest, sql.written = some token :: rest ∧ begins token = true ∧
    (7 ≤ sql.level → (token = Tok.symbol .minus ↔ sql.level = 7))

theorem begins_literal {sql : Sql} {text : String} (written : sql.written = signed text)
    (level : sql.level = if isSigned text then 7 else 9) : sql.Begins := by
  obtain ⟨token, rest, first, begun, minus⟩ := signed_begins text
  refine ⟨token, rest, written.trans first, begun, fun _ => ?_⟩
  rw [minus, level]
  split <;> simp [*]

theorem begins_left {sql left : Sql} {more : Pieces} (written : sql.written = left.written ++ more)
    (first : left.Begins) (low : sql.level < 7) : sql.Begins := by
  obtain ⟨token, rest, begun, begins, -⟩ := first
  exact ⟨token, rest ++ more, by rw [written, begun]; rfl, begins, fun high => by omega⟩

variable {may : Sql → Prop}

/-- By induction on the operands to the left. -/
theorem Sql.written_begins : (sql : Sql) → sql.Shaped may → 1 ≤ sql.level → sql.Begins
  | .column qualifier name, _, _ => by
      obtain ⟨begun, other⟩ := aliasTok_begins qualifier
      exact ⟨aliasTok qualifier, _, rfl, begun, fun _ => by simp [other, Sql.level]⟩
  | .null, _, _ | .text _, _, _ | .paren _, _, _ | .caseSearched _, _, _ | .caseSimple _ _, _, _ | .cast _ _, _, _
  | .call _ _, _, _ | .countAll, _, _ | .aggregate _ _ _, _, _ | .windowCall _ _, _, _ | .existsQuery _, _, _ =>
      ⟨_, _, rfl, rfl, fun _ => by simp [Sql.level]⟩
  | .integer _, _, _ => begins_literal rfl rfl
  | .number _, _, _ => begins_literal rfl rfl
  | .neg _, _, _ => ⟨_, _, rfl, rfl, fun _ => by simp [Sql.level]⟩
  | .not _, _, _ => ⟨_, _, rfl, rfl, fun high => absurd high (by simp [Sql.level])⟩
  | .compare _ left _, shaped, _ =>
      begins_left rfl (Sql.written_begins left shaped.1.2 (Nat.le_trans (by decide) shaped.1.1)) (by simp [Sql.level])
  | .arithmetic op left _, shaped, operator =>
      begins_left rfl (Sql.written_begins left shaped.1.2 (Nat.le_trans operator shaped.1.1))
        (by cases op <;> simp [Sql.level, Arithmetic.level])
  | .concat [], shaped, _ | .connect _ [], shaped, _ => absurd rfl shaped.1
  | .concat (operand :: _), shaped, _ =>
      begins_left rfl (Sql.written_begins operand shaped.2.1.2 (Nat.le_trans (by decide) shaped.2.1.1))
        (by simp [Sql.level])
  | .connect connective (operand :: _), shaped, _ =>
      begins_left rfl (Sql.written_begins operand shaped.2.1.2 (Nat.le_trans (Nat.le_add_left ..) shaped.2.1.1))
        (by cases connective <;> simp [Sql.level, Connective.level])
  | .isNull _ operand, shaped, _ =>
      begins_left rfl (Sql.written_begins operand shaped.2 (Nat.le_trans (by decide) shaped.1)) (by simp [Sql.level])
  | .between _ value _ _, shaped, _ | .inList _ value _, shaped, _ | .like _ value _, shaped, _
  | .inQuery value _, shaped, _ =>
      begins_left rfl (Sql.written_begins value shaped.1.2 (Nat.le_trans (by decide) shaped.1.1)) (by simp [Sql.level])
  | .windowed function _ _ _, shaped, _ => by
      have tight := shaped.1.1
      obtain ⟨token, rest, written, begun, minus⟩ :=
        Sql.written_begins function shaped.1.2 (Nat.le_trans (by decide) tight)
      have other : token ≠ .symbol .minus := fun same => by
        have := (minus (by omega)).mp same
        omega
      exact ⟨token, _, by rw [Sql.written, written]; rfl, begun, fun _ => by simp [other, Sql.level]⟩
  | .subquery _, _, operator => absurd operator (by simp [Sql.level])

end Begin

section Parts

variable {rest : Pieces}

@[simp] theorem symbol_valid (s : Symbol) : (Tok.symbol s).Valid := trivial

@[simp] theorem keyword_valid (k : Keyword) : (Tok.keyword k).Valid := trivial

@[simp] theorem name_valid (text : String) : (Tok.name text).Valid := trivial

@[simp] theorem string_valid (bytes : List UInt8) : (Tok.string bytes).Valid := trivial

@[simp] theorem nat_valid (n : Nat) : (Tok.number n.repr).Valid := number_valid n

/-- What stands between operands: neither goes on with it. -/
structure Neutral (between : Pieces) : Prop where
  follows : ∀ rest, Follows (between ++ rest)
  close : ∀ rest, Close (between ++ rest) ↔ Close rest
  apart : ∀ rest, Apart (between ++ rest) ↔ Apart rest

theorem neutral_token {token : Tok} (valid : token.Valid) : Neutral [none, some token, none] := by
  refine ⟨by simp, by simp [valid], fun rest => ?_⟩
  simp [apart_cons, minusSign]

theorem neutral_comma : Neutral [some (.symbol .comma), none] := by constructor <;> simp

/-- Keywords before the keys of a list. -/
structure NeutralHead (head : Pieces) : Prop where
  close : ∀ rest, Close (head ++ rest) ↔ Close rest
  apart : ∀ rest, Apart (head ++ rest) ↔ Apart rest

theorem neutral_keys (first : Keyword) : NeutralHead [some (.keyword first), none, some (.keyword .by_), none] := by
  constructor <;> simp

theorem neutral_clause (first : Keyword) :
    NeutralHead [none, some (.keyword first), none, some (.keyword .by_), none] := by
  constructor <;> simp

theorem keys_follows (head : Pieces) (keys : List Key) : Follows (keysWritten (none :: head) keys ++ rest) ↔
    keys = [] → Follows rest := by
  cases keys <;> simp [keysWritten]

theorem comparison_neutral (op : Comparison) : Neutral op.written := by
  cases op with
  | isNotDistinctFrom | isDistinctFrom => constructor <;> simp [Comparison.written]
  | _ => exact neutral_token trivial

@[simp] theorem not_close (negated : Bool) : Close (notWritten negated ++ rest) ↔ Close rest := by
  cases negated <;> simp [notWritten]

@[simp] theorem not_apart (negated : Bool) : Apart (notWritten negated ++ rest) ↔ Apart rest := by
  cases negated <;> simp [notWritten]

@[simp] theorem direction_follows (descending : Bool) : Follows (directionWritten descending ++ rest) := by
  cases descending <;> simp [directionWritten]

theorem direction_good (descending : Bool) : Close (directionWritten descending) ∧ Apart (directionWritten descending) := by
  cases descending <;> simp [directionWritten]

theorem bound_good (bound : FrameBound) : Close bound.written ∧ Apart bound.written := by
  cases bound with
  | currentRow => simp [FrameBound.written]
  | unbounded preceding => cases preceding <;> simp [FrameBound.written]
  | offset rows preceding => cases preceding <;> simp [FrameBound.written]

theorem frame_good (frame : Option (FrameBound × FrameBound)) : Close (frameWritten frame) ∧ Apart (frameWritten frame) := by
  cases frame with
  | none => simp [frameWritten]
  | some bounds =>
      obtain ⟨top, bottom⟩ := bounds
      simp [frameWritten, bound_good top, bound_good bottom]

theorem limit_good (rows : Option Limit) :
    Close (limitWritten rows) ∧ Apart (limitWritten rows) ∧ Follows (limitWritten rows) := by
  rcases rows with _ | ⟨rows, _ | offset⟩ <;> simp [limitWritten]

end Parts

def Anything (_ : Sql) : Prop := True

/-- The operand is not written with a minus sign of its own. -/
def Unsigned (operand : Sql) : Prop := 8 ≤ operand.level

/-- Valid pieces, in which no two minus signs meet exactly under a condition. -/
def Good (pieces : Pieces) (condition : Prop) : Prop := Close pieces ∧ (Apart pieces ↔ condition)

section Good

variable {pieces rest : Pieces} {first later : Prop}

theorem Good.append (good : Good pieces first) (goodRest : Good rest later) (follows : Follows rest) :
    Good (pieces ++ rest) (first ∧ later) :=
  ⟨(close_append follows).mpr ⟨good.1, goodRest.1⟩, by rw [apart_append follows, good.2, goodRest.2]⟩

theorem signed_good {text : String} (valid : NumberText text) : Good (signed text) True := by
  unfold NumberText at valid
  unfold signed at valid ⊢
  split
  · rename_i digits chars
    rw [chars] at valid
    have digitsValid : (Tok.number (String.ofList digits)).Valid := valid _ (by simp)
    simp [Good, digitsValid]
  · rename_i chars
    have textValid : (Tok.number text).Valid := by
      split at valid
      · exact absurd ‹_› (chars _)
      · exact valid _ (by simp)
    simp [Good, textValid]

theorem column_good {token : Tok} (valid : token.Valid) (name : String) (word : ∀ text, token ≠ .number text)
    (symbol : ∀ s, token ≠ .symbol s) : Good [some token, some (.symbol .dot), some (.name name)] True := by
  refine ⟨close_cons.mpr ⟨?_, ?_, by simp⟩, ?_⟩
  · rintro _ ⟨⟩
    exact valid
  · rintro _ ⟨⟩
    exact near_dot word symbol
  · rw [apart_token (symbol .minus)]
    simp

theorem aliasTok_word (tableAlias : String) :
    (∀ text, aliasTok tableAlias ≠ .number text) ∧ ∀ s, aliasTok tableAlias ≠ .symbol s := by
  unfold aliasTok
  split <;> simp

theorem Good.part {part more : Pieces} (good : Good part first) (goodMore : Good more later) :
    Good (partWritten part more) (first ∧ later) := by
  unfold partWritten
  split
  · rename_i empty
    rw [List.isEmpty_iff.mp empty] at good
    have holds : first := good.2.mp apart_nil
    exact ⟨goodMore.1, goodMore.2.trans ⟨fun holdsMore => ⟨holds, holdsMore⟩, fun both => both.2⟩⟩
  · split
    · rename_i empty
      rw [List.isEmpty_iff.mp empty] at goodMore
      have holds : later := goodMore.2.mp apart_nil
      exact ⟨good.1, good.2.trans ⟨fun holdsFirst => ⟨holdsFirst, holds⟩, fun both => both.1⟩⟩
    · exact good.append ⟨close_space.mpr goodMore.1, apart_space.trans goodMore.2⟩ follows_space

theorem moreWritten_cons (part : Pieces) (parts : List Pieces) :
    moreWritten (part :: parts) = some (.symbol .comma) :: none :: (part ++ moreWritten parts) := rfl

/-- Parts behind commas. -/
theorem commas_good {α : Type} {write : α → Pieces} {condition : α → Prop} {all : List α}
    (each : ∀ a ∈ all, Good (write a) (condition a)) :
    Good (commasWritten (all.map write)) (∀ a ∈ all, condition a) := by
  have more (later : List α) (each : ∀ a ∈ later, Good (write a) (condition a)) :
      Good (moreWritten (later.map write)) (∀ a ∈ later, condition a) ∧ Follows (moreWritten (later.map write)) := by
    induction later with
    | nil => simp [Good, moreWritten]
    | cons a later ih =>
        obtain ⟨⟨close, apart⟩, others⟩ := List.forall_mem_cons.mp each
        obtain ⟨⟨closeLater, apartLater⟩, follows⟩ := ih others
        rw [List.map_cons, moreWritten_cons, List.forall_mem_cons]
        simp [Good, close, apart, closeLater, apartLater, follows]
  cases all with
  | nil => simp [Good, commasWritten]
  | cons a all =>
      obtain ⟨here, others⟩ := List.forall_mem_cons.mp each
      obtain ⟨later, follows⟩ := more all others
      rw [List.map_cons, commasWritten, List.forall_mem_cons]
      exact here.append later follows

theorem names_good (orderBy : List (String × Bool)) :
    Close (namesWritten orderBy) ∧ Apart (namesWritten orderBy) ∧ Follows (namesWritten orderBy) := by
  have names : Good (commasWritten (orderBy.map fun key => some (.name key.1) :: directionWritten key.2))
      (∀ key ∈ orderBy, True) := by
    refine commas_good fun key _ => ?_
    have follows := @direction_follows [] key.2
    rw [List.append_nil] at follows
    simp [Good, follows, direction_good key.2]
  obtain ⟨close, apart⟩ := names
  have apart := apart.mpr fun _ _ => trivial
  unfold namesWritten
  split <;> simp [close, apart]

end Good

section Written

mutual

/-- By induction on the expression. -/
theorem Sql.written_good : (sql : Sql) → sql.Shaped Anything → Good sql.written (sql.Shaped Unsigned)
  | .column qualifier name, shaped => by
      have good := column_good shaped name (aliasTok_word qualifier).1 (aliasTok_word qualifier).2
      exact ⟨good.1, good.2.trans ⟨fun _ => shaped, fun _ => trivial⟩⟩
  | .null, _ | .countAll, _ => by simp [Good, Sql.written, Sql.Shaped]
  | .text _, _ => by simp [Good, Sql.written, Sql.Shaped]
  | .integer value, _ => signed_good (int_numberText value.toInt)
  | .number digits, shaped => by
      have good := signed_good shaped
      exact ⟨good.1, good.2.trans ⟨fun _ => shaped, fun _ => trivial⟩⟩
  | .paren operand, shaped => by
      obtain ⟨close, apart⟩ := Sql.written_good operand shaped
      simp [Good, Sql.written, Sql.Shaped, close, apart]
  | .compare op left right, shaped => by
      obtain ⟨⟨leftTight, leftShaped⟩, rightTight, rightShaped⟩ := shaped
      have neutral := comparison_neutral op
      obtain ⟨leftClose, leftApart⟩ := Sql.written_good left leftShaped
      obtain ⟨rightClose, rightApart⟩ := Sql.written_good right rightShaped
      simp [Good, Sql.written, Sql.Shaped, neutral.follows, neutral.close, neutral.apart, leftTight, leftClose, leftApart,
        rightTight, rightClose, rightApart]
  | .arithmetic op left right, shaped => by
      obtain ⟨⟨leftTight, leftShaped⟩, rightTight, rightShaped⟩ := shaped
      obtain ⟨leftClose, leftApart⟩ := Sql.written_good left leftShaped
      obtain ⟨rightClose, rightApart⟩ := Sql.written_good right rightShaped
      simp [Good, Sql.written, Sql.Shaped, leftTight, leftClose, leftApart, rightTight, rightClose, rightApart]
  | .concat operands, shaped => by
      have good := list_good (neutral_token (symbol_valid .concat)) operands 6 shaped.2
      exact ⟨good.1, good.2.trans ⟨fun below => ⟨shaped.1, below⟩, fun both => both.2⟩⟩
  | .connect connective operands, shaped => by
      have good := list_good (neutral_token (keyword_valid connective.keyword)) operands _ shaped.2
      exact ⟨good.1, good.2.trans ⟨fun below => ⟨shaped.1, below⟩, fun both => both.2⟩⟩
  | .isNull negated operand, shaped => by
      obtain ⟨close, apart⟩ := Sql.written_good operand shaped.2
      simp [Good, Sql.written, Sql.Shaped, close, apart, shaped.1]
  | .between negated value low high, shaped => by
      obtain ⟨⟨valueTight, valueShaped⟩, ⟨lowTight, lowShaped⟩, highTight, highShaped⟩ := shaped
      obtain ⟨valueClose, valueApart⟩ := Sql.written_good value valueShaped
      obtain ⟨lowClose, lowApart⟩ := Sql.written_good low lowShaped
      obtain ⟨highClose, highApart⟩ := Sql.written_good high highShaped
      simp [Good, Sql.written, Sql.Shaped, valueTight, valueClose, valueApart, lowTight, lowClose, lowApart, highTight,
        highClose, highApart]
  | .inList negated value list, shaped => by
      obtain ⟨⟨valueTight, valueShaped⟩, some_, listShaped⟩ := shaped
      obtain ⟨valueClose, valueApart⟩ := Sql.written_good value valueShaped
      obtain ⟨listClose, listApart⟩ := list_good neutral_comma list 1 listShaped
      simp [Good, Sql.written, Sql.Shaped, valueTight, valueClose, valueApart, some_, listClose, listApart]
  | .like negated value pattern, shaped => by
      obtain ⟨⟨valueTight, valueShaped⟩, patternTight, patternShaped⟩ := shaped
      obtain ⟨valueClose, valueApart⟩ := Sql.written_good value valueShaped
      obtain ⟨patternClose, patternApart⟩ := Sql.written_good pattern patternShaped
      simp [Good, Sql.written, Sql.Shaped, valueTight, valueClose, valueApart, patternTight, patternClose, patternApart]
  | .not operand, shaped => by
      obtain ⟨close, apart⟩ := Sql.written_good operand shaped.2
      simp [Good, Sql.written, Sql.Shaped, close, apart, shaped.1]
  | .neg operand, shaped => by
      obtain ⟨-, tight, operandShaped⟩ := shaped
      obtain ⟨close, apart⟩ := Sql.written_good operand operandShaped
      obtain ⟨token, rest, written, -, minus⟩ :=
        Sql.written_begins operand operandShaped (Nat.le_trans (by decide) tight)
      have unsigned : operand.written.head? ≠ some (some (.symbol .minus)) ↔ Unsigned operand := by
        rw [written, Unsigned]
        simp only [List.head?_cons, ne_eq, Option.some.injEq, minus tight]
        omega
      simp [Good, Sql.written, Sql.Shaped, close, apart, tight, ← unsigned]
  | .caseSearched arms, shaped => by
      obtain ⟨close, apart, follows⟩ := Arms.written_good arms shaped
      simp [Good, Sql.written, Sql.Shaped, close, apart, follows]
  | .caseSimple subject arms, shaped => by
      obtain ⟨⟨tight, subjectShaped⟩, armsShaped⟩ := shaped
      obtain ⟨close, apart⟩ := Sql.written_good subject subjectShaped
      obtain ⟨armsClose, armsApart, follows⟩ := Arms.written_good arms armsShaped
      simp [Good, Sql.written, Sql.Shaped, tight, close, apart, armsClose, armsApart, follows]
  | .cast operand type, shaped => by
      obtain ⟨close, apart⟩ := Sql.written_good operand shaped.2
      simp [Good, Sql.written, Sql.Shaped, close, apart, shaped.1]
  | .call function args, shaped => by
      obtain ⟨close, apart⟩ := list_good neutral_comma args 1 shaped
      simp [Good, Sql.written, Sql.Shaped, close, apart]
  | .windowCall function args, shaped => by
      obtain ⟨close, apart⟩ := list_good neutral_comma args 1 shaped
      simp [Good, Sql.written, Sql.Shaped, close, apart]
  | .aggregate aggregate distinct arg, shaped => by
      obtain ⟨close, apart⟩ := Sql.written_good arg shaped.2
      cases distinct <;> simp [Good, Sql.written, Sql.Shaped, close, apart, shaped.1]
  | .windowed function partition order frame, shaped => by
      obtain ⟨⟨tight, functionShaped⟩, partitionShaped, orderShaped⟩ := shaped
      obtain ⟨close, apart⟩ := Sql.written_good function functionShaped
      have keys := (keys_good (neutral_keys .partition_) partition partitionShaped).part
        (keys_good (neutral_keys .order_) order orderShaped)
      obtain ⟨partsClose, partsApart⟩ := keys.part ⟨(frame_good frame).1, iff_of_true (frame_good frame).2 trivial⟩
      simp [Good, Sql.written, Sql.Shaped, tight, close, apart, partsClose, partsApart]
  | .subquery query, shaped => Query.written_good query shaped
  | .existsQuery query, shaped => by
      obtain ⟨close, apart⟩ := Query.written_good query shaped
      simp [Good, Sql.written, Sql.Shaped, close, apart]
  | .inQuery value query, shaped => by
      obtain ⟨⟨tight, valueShaped⟩, queryShaped⟩ := shaped
      obtain ⟨close, apart⟩ := Sql.written_good value valueShaped
      obtain ⟨queryClose, queryApart⟩ := Query.written_good query queryShaped
      simp [Good, Sql.written, Sql.Shaped, tight, close, apart, queryClose, queryApart]

theorem list_good {between : Pieces} (neutral : Neutral between) : (sqls : List Sql) → (level : Nat) →
    AllShaped Anything level sqls → Good (listWritten between sqls) (AllShaped Unsigned level sqls)
  | [], _, _ => by simp [Good, listWritten, AllShaped]
  | sql :: sqls, level, shaped => by
      obtain ⟨⟨tight, first⟩, later⟩ := shaped
      obtain ⟨close, apart⟩ := Sql.written_good sql first
      obtain ⟨⟨tailClose, tailApart⟩, follows⟩ := tail_good neutral sqls level later
      simp [Good, listWritten, AllShaped, tight, close, apart, tailClose, tailApart, follows]

theorem tail_good {between : Pieces} (neutral : Neutral between) : (sqls : List Sql) → (level : Nat) →
    AllShaped Anything level sqls →
      Good (tailWritten between sqls) (AllShaped Unsigned level sqls) ∧ Follows (tailWritten between sqls)
  | [], _, _ => by simp [Good, tailWritten, AllShaped]
  | sql :: sqls, level, shaped => by
      obtain ⟨⟨tight, first⟩, later⟩ := shaped
      obtain ⟨close, apart⟩ := Sql.written_good sql first
      obtain ⟨⟨tailClose, tailApart⟩, follows⟩ := tail_good neutral sqls level later
      simp [Good, tailWritten, AllShaped, neutral.follows, neutral.close, neutral.apart, tight, close, apart, tailClose,
        tailApart, follows]

theorem Arms.written_good : (arms : Arms) → arms.Shaped Anything →
    Close arms.written ∧ (Apart arms.written ↔ arms.Shaped Unsigned) ∧ Follows arms.written
  | .done, _ => by simp [Arms.written, Arms.Shaped]
  | .otherwise value, shaped => by
      obtain ⟨close, apart⟩ := Sql.written_good value shaped.2
      simp [Arms.written, Arms.Shaped, close, apart, shaped.1]
  | .when test value rest, shaped => by
      obtain ⟨⟨testTight, testShaped⟩, ⟨valueTight, valueShaped⟩, restShaped⟩ := shaped
      obtain ⟨testClose, testApart⟩ := Sql.written_good test testShaped
      obtain ⟨valueClose, valueApart⟩ := Sql.written_good value valueShaped
      obtain ⟨restClose, restApart, follows⟩ := Arms.written_good rest restShaped
      simp [Arms.written, Arms.Shaped, testTight, testClose, testApart, valueTight, valueClose, valueApart, restClose,
        restApart, follows]

theorem Key.written_good : (key : Key) → key.Shaped Anything → Good key.written (key.Shaped Unsigned)
  | .mk value none, shaped => by
      obtain ⟨close, apart⟩ := Sql.written_good value shaped.2
      simp [Good, Key.written, Key.Shaped, close, apart, shaped.1]
  | .mk value (some descending), shaped => by
      obtain ⟨close, apart⟩ := Sql.written_good value shaped.2
      have follows := @direction_follows [] descending
      rw [List.append_nil] at follows
      simp [Good, Key.written, Key.Shaped, close, apart, shaped.1, follows, direction_good descending]

theorem keys_good {head : Pieces} (neutral : NeutralHead head) : (keys : List Key) → KeysShaped Anything keys →
    Good (keysWritten head keys) (KeysShaped Unsigned keys)
  | [], _ => by simp [Good, keysWritten, KeysShaped]
  | key :: keys, shaped => by
      obtain ⟨close, apart⟩ := Key.written_good key shaped.1
      obtain ⟨⟨moreClose, moreApart⟩, follows⟩ := moreKeys_good keys shaped.2
      simp [Good, keysWritten, KeysShaped, neutral.close, neutral.apart, close, apart, moreClose, moreApart, follows]

theorem moreKeys_good : (keys : List Key) → KeysShaped Anything keys →
    Good (moreKeysWritten keys) (KeysShaped Unsigned keys) ∧ Follows (moreKeysWritten keys)
  | [], _ => by simp [Good, moreKeysWritten, KeysShaped]
  | key :: keys, shaped => by
      obtain ⟨close, apart⟩ := Key.written_good key shaped.1
      obtain ⟨⟨moreClose, moreApart⟩, follows⟩ := moreKeys_good keys shaped.2
      simp [Good, moreKeysWritten, KeysShaped, close, apart, moreClose, moreApart, follows]

theorem Output.written_good : (output : Output) → output.Shaped Anything → Good output.written (output.Shaped Unsigned)
  | .mk value none, shaped => by
      obtain ⟨close, apart⟩ := Sql.written_good value shaped.2
      simp [Good, Output.written, Output.Shaped, close, apart, shaped.1]
  | .mk value (some name), shaped => by
      obtain ⟨close, apart⟩ := Sql.written_good value shaped.2
      simp [Good, Output.written, Output.Shaped, close, apart, shaped.1]

theorem outputs_good : (outputs : List Output) → OutputsShaped Anything outputs →
    Good (outputsWritten outputs) (OutputsShaped Unsigned outputs)
  | [], _ => by simp [Good, outputsWritten, OutputsShaped]
  | output :: outputs, shaped => by
      obtain ⟨close, apart⟩ := Output.written_good output shaped.1
      obtain ⟨⟨moreClose, moreApart⟩, follows⟩ := moreOutputs_good outputs shaped.2
      simp [Good, outputsWritten, OutputsShaped, close, apart, moreClose, moreApart, follows]

theorem moreOutputs_good : (outputs : List Output) → OutputsShaped Anything outputs →
    Good (moreOutputsWritten outputs) (OutputsShaped Unsigned outputs) ∧ Follows (moreOutputsWritten outputs)
  | [], _ => by simp [Good, moreOutputsWritten, OutputsShaped]
  | output :: outputs, shaped => by
      obtain ⟨close, apart⟩ := Output.written_good output shaped.1
      obtain ⟨⟨moreClose, moreApart⟩, follows⟩ := moreOutputs_good outputs shaped.2
      simp [Good, moreOutputsWritten, OutputsShaped, close, apart, moreClose, moreApart, follows]

theorem conditions_good (first : Keyword) : (conditions : List Sql) → AllShaped Anything 1 conditions →
    Good (conditionsWritten first conditions) (AllShaped Unsigned 1 conditions) ∧
      Follows (conditionsWritten first conditions)
  | [], _ => by simp [Good, conditionsWritten, AllShaped]
  | condition :: conditions, shaped => by
      obtain ⟨⟨tight, shapedFirst⟩, later⟩ := shaped
      obtain ⟨close, apart⟩ := Sql.written_good condition shapedFirst
      obtain ⟨⟨moreClose, moreApart⟩, follows⟩ := moreConditions_good conditions later
      simp [Good, conditionsWritten, AllShaped, tight, close, apart, moreClose, moreApart]

theorem moreConditions_good : (conditions : List Sql) → AllShaped Anything 1 conditions →
    Good (moreConditionsWritten conditions) (AllShaped Unsigned 1 conditions) ∧
      Follows (moreConditionsWritten conditions)
  | [], _ => by simp [Good, moreConditionsWritten, AllShaped]
  | condition :: conditions, shaped => by
      obtain ⟨⟨tight, shapedFirst⟩, later⟩ := shaped
      obtain ⟨close, apart⟩ := Sql.written_good condition shapedFirst
      obtain ⟨⟨moreClose, moreApart⟩, follows⟩ := moreConditions_good conditions later
      simp [Good, moreConditionsWritten, AllShaped, tight, close, apart, moreClose, moreApart]

theorem having_good : (having : Option Sql) → OptionShaped Anything having →
    Good (havingWritten having) (OptionShaped Unsigned having) ∧ Follows (havingWritten having)
  | none, _ => by simp [Good, havingWritten, OptionShaped]
  | some condition, shaped => by
      obtain ⟨close, apart⟩ := Sql.written_good condition shaped.2
      simp [Good, havingWritten, OptionShaped, close, apart, shaped.1]

theorem selectList_good (distinct : Bool) : (list : Option (List Output)) → ListShaped Anything list →
    Good (selectListWritten distinct list) (ListShaped Unsigned list) ∧ Follows (selectListWritten distinct list)
  | none, _ => by
      have one : (Tok.number "1").Valid := number_valid 1
      simp [Good, selectListWritten, ListShaped, one]
  | some list, shaped => by
      obtain ⟨close, apart⟩ := outputs_good list shaped.2
      cases distinct <;> simp [Good, selectListWritten, ListShaped, close, apart, shaped.1]

theorem Query.written_good : (query : Query) → query.Shaped Anything → Good query.written (query.Shaped Unsigned)
  | .select distinct list source filters groupBy having orderBy rows, shaped => by
      obtain ⟨listShaped, sourceShaped, filtersShaped, groupShaped, havingShaped, orderShaped⟩ := shaped
      obtain ⟨⟨listClose, listApart⟩, listFollows⟩ := selectList_good distinct list listShaped
      obtain ⟨sourceClose, sourceApart⟩ := source_good source sourceShaped
      obtain ⟨⟨filtersClose, filtersApart⟩, filtersFollows⟩ := conditions_good .where_ filters filtersShaped
      obtain ⟨groupClose, groupApart⟩ := keys_good (neutral_clause .group_) groupBy groupShaped
      obtain ⟨⟨havingClose, havingApart⟩, havingFollows⟩ := having_good having havingShaped
      obtain ⟨orderClose, orderApart⟩ := keys_good (neutral_clause .order_) orderBy orderShaped
      obtain ⟨rowsClose, rowsApart, rowsFollows⟩ := limit_good rows
      have sorted : Follows (keysWritten [none, some (.keyword .order_), none, some (.keyword .by_), none] orderBy ++
          limitWritten rows) := (keys_follows _ _).mpr fun _ => rowsFollows
      have had := follows_append havingFollows sorted
      have grouped : Follows (keysWritten [none, some (.keyword .group_), none, some (.keyword .by_), none] groupBy ++
          (havingWritten having ++ (keysWritten [none, some (.keyword .order_), none, some (.keyword .by_), none] orderBy ++
          limitWritten rows))) := (keys_follows _ _).mpr fun _ => had
      have filtered := follows_append filtersFollows grouped
      have listed (more : Pieces) : Follows (selectListWritten distinct list ++ none :: more) :=
        follows_append listFollows follows_space
      simp [Good, Query.written, Query.Shaped, listClose, listApart, sourceClose, sourceApart, filtersClose, filtersApart,
        groupClose, groupApart, havingClose, havingApart, orderClose, orderApart, rowsClose, rowsApart, rowsFollows,
        sorted, had, grouped, filtered, listed]
  | .legs first rest orderBy rows, shaped => by
      obtain ⟨⟨isLeg, firstShaped⟩, some_, restShaped⟩ := shaped
      obtain ⟨close, apart⟩ := Query.written_good first firstShaped
      obtain ⟨⟨restClose, restApart⟩, restFollows⟩ := legs_good rest restShaped
      obtain ⟨namesClose, namesApart, namesFollows⟩ := names_good orderBy
      obtain ⟨rowsClose, rowsApart, rowsFollows⟩ := limit_good rows
      have sorted := follows_append namesFollows rowsFollows
      have whole := follows_append restFollows sorted
      simp [Good, Query.written, Query.Shaped, isLeg, some_, close, apart, restClose, restApart, namesClose, namesApart,
        rowsClose, rowsApart, rowsFollows, sorted, whole]

theorem Leg.written_good : (leg : Leg) → leg.Shaped Anything → Good leg.written (leg.Shaped Unsigned) ∧ Follows leg.written
  | .mk op all query, shaped => by
      obtain ⟨close, apart⟩ := Query.written_good query shaped.2
      cases all <;> simp [Good, Leg.written, Leg.Shaped, close, apart, shaped.1]

theorem legs_good : (legs : List Leg) → LegsShaped Anything legs →
    Good (legsWritten legs) (LegsShaped Unsigned legs) ∧ Follows (legsWritten legs)
  | [], _ => by simp [Good, legsWritten, LegsShaped]
  | leg :: legs, shaped => by
      obtain ⟨good, follows⟩ := Leg.written_good leg shaped.1
      obtain ⟨more, moreFollows⟩ := legs_good legs shaped.2
      exact ⟨good.append more moreFollows, follows_append follows moreFollows⟩

theorem Source.written_good : (source : Source) → source.Shaped Anything → Good source.written (source.Shaped Unsigned)
  | .table name tableAlias, shaped => by
      have valid : (aliasTok tableAlias).Valid := shaped
      have other := (aliasTok_word tableAlias).2 .minus
      simp [Good, Source.written, Source.Shaped, valid, other]
  | .derived query tableAlias, shaped => by
      obtain ⟨close, apart⟩ := Query.written_good query shaped.1
      have other := (aliasTok_word tableAlias).2 .minus
      simp [Good, Source.written, Source.Shaped, close, apart, shaped.2, other]

theorem joins_good : (joins : List Joined) → JoinsShaped Anything joins →
    Good (sourceWritten joins) (JoinsShaped Unsigned joins) ∧ Follows (sourceWritten joins)
  | [], _ => by simp [Good, sourceWritten, JoinsShaped]
  | .mk join source on :: rest, shaped => by
      obtain ⟨⟨joined, sourceShaped, onShaped⟩, restShaped⟩ := shaped
      obtain ⟨close, apart⟩ := Source.written_good source sourceShaped
      obtain ⟨⟨onClose, onApart⟩, onFollows⟩ := conditions_good .on_ on onShaped
      obtain ⟨⟨restClose, restApart⟩, restFollows⟩ := joins_good rest restShaped
      have follows := follows_append onFollows restFollows
      cases join with
      | none => cases joined
      | some kind =>
          cases kind <;> simp [Good, sourceWritten, Joined.written, joinWritten, JoinsShaped, Joined.Shaped, close, apart,
            onClose, onApart, follows, restClose, restApart, restFollows, and_assoc]

theorem source_good : (source : List Joined) → SourceShaped Anything source →
    Good (sourceWritten source) (SourceShaped Unsigned source)
  | [], shaped => shaped.elim
  | .mk join source on :: rest, shaped => by
      obtain ⟨⟨rfl, rfl, sourceShaped⟩, restShaped⟩ := shaped
      obtain ⟨close, apart⟩ := Source.written_good source sourceShaped
      obtain ⟨⟨restClose, restApart⟩, restFollows⟩ := joins_good rest restShaped
      simp [Good, sourceWritten, Joined.written, joinWritten, SourceShaped, conditionsWritten, close, apart, restClose,
        restApart, restFollows]

end

theorem filter_good (filter : Option Sql) (shaped : OptionShaped Anything filter) :
    Good (filterWritten filter) (OptionShaped Unsigned filter) ∧ Follows (filterWritten filter) := by
  cases filter with
  | none => simp [Good, filterWritten, OptionShaped]
  | some condition =>
      obtain ⟨close, apart⟩ := Sql.written_good condition shaped.2
      simp [Good, filterWritten, OptionShaped, close, apart, shaped.1]

theorem sets_good (sets : List (String × Sql)) (shaped : SetsShaped Anything sets) :
    Good (commasWritten (sets.map fun set => setWritten set.1 set.2)) (SetsShaped Unsigned sets) := by
  refine commas_good fun set member => ?_
  obtain ⟨tight, here⟩ := shaped set member
  obtain ⟨close, apart⟩ := Sql.written_good set.2 here
  simp [Good, setWritten, close, apart, tight]

theorem Statement.written_good (statement : Statement) (shaped : statement.Shaped Anything) :
    Good statement.written (statement.Shaped Unsigned) := by
  cases statement with
  | update table sets filter =>
      obtain ⟨valid, some_, setsShaped, filterShaped⟩ := shaped
      obtain ⟨setsClose, setsApart⟩ := sets_good sets setsShaped
      obtain ⟨⟨filterClose, filterApart⟩, follows⟩ := filter_good filter filterShaped
      simp [Good, Statement.written, Statement.Shaped, valid, some_, setsClose, setsApart, filterClose, filterApart,
        follows]
  | delete table filter =>
      obtain ⟨valid, filterShaped⟩ := shaped
      obtain ⟨⟨filterClose, filterApart⟩, follows⟩ := filter_good filter filterShaped
      have other := (aliasTok_word table).2 .minus
      simp [Good, Statement.written, Statement.Shaped, valid, other, filterClose, filterApart, follows]

theorem ModifyCount.written_good (count : ModifyCount) (shaped : count.Shaped Anything) :
    Good count.written (count.Shaped Unsigned) := by
  obtain ⟨valid, filterShaped⟩ := shaped
  obtain ⟨⟨filterClose, filterApart⟩, follows⟩ := filter_good count.filter filterShaped
  have other := (aliasTok_word count.table).2 .minus
  simp [Good, ModifyCount.written, Sql.written, ModifyCount.Shaped, valid, other, filterClose, filterApart, follows]

end Written

end StoolapMariadb.SqlGen
