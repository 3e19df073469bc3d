import StoolapMariadb.SqlGen.Pieces

namespace StoolapMariadb.SqlGen

/-! What the parser reads of an expression, operand by operand and operator by
operator. -/

open Parsing
open Lexer (Symbol)

/-- How late a clause comes that the token opens; the end of the query is last,
and what opens none is first. -/
def clauseRank : Option Tok → Nat
  | none | some (.symbol .rparen) => 9
  | some (.keyword .limit_) | some (.keyword .rows_) => 8
  | some (.keyword .order_) => 7
  | some (.keyword .union_) | some (.keyword .intersect_) | some (.keyword .except_) => 6
  | some (.keyword .having_) => 5
  | some (.keyword .group_) => 4
  | some (.keyword .where_) => 3
  | some (.keyword .cross_) | some (.keyword .left_) | some (.keyword .join_) => 2
  | some (.keyword .on_) => 1
  | _ => 0

section Ranks

variable {token : Tok} {next : Option Tok}

/-- No operator, comma, name or direction goes on before a clause. -/
theorem rank_ends (late : 1 ≤ clauseRank next) :
    operatorLevel next = 0 ∧ next ≠ some (.symbol .comma) ∧ next ≠ some (.keyword .as_) ∧
      next ≠ some (.keyword .asc_) ∧ next ≠ some (.keyword .desc_) := by
  rcases next with _ | s | k | text | text | text | bytes
  · simp [operatorLevel]
  · cases s with
    | rparen => simp [operatorLevel, symbolLevel, symbolComparison, symbolArithmetic]
    | _ => exact absurd late (by simp [clauseRank])
  · cases k <;> first | (simp [clauseRank] at late; done) | simp [operatorLevel]
  all_goals exact absurd late (by simp [clauseRank])

theorem rank_ne {rank : Nat} (early : clauseRank (some token) < rank) (late : rank ≤ clauseRank next) :
    next ≠ some token := by
  rintro rfl
  omega

end Ranks

/-- In front of what binds no tighter, the expression is read and its operators
go on. -/
def Sql.Parses (sql : Sql) : Prop :=
  ∀ ⦃level : Nat⦄ ⦃rest left : List Tok⦄ ⦃value : Sql⦄, level ≤ sql.level → operatorLevel rest.head? ≤ sql.level →
    Reads (fun fuel => parseInfix fuel level sql.meant) rest value left →
      Reads (fun fuel => parseExpr fuel level) (toks sql.written ++ rest) value left

section Expressions

variable {sql first : Sql} {rest : List Tok} {level : Nat}

/-- The whole expression, before what ends it. -/
theorem Sql.Parses.whole (parses : sql.Parses) (tight : level ≤ sql.level) (ends : operatorLevel rest.head? < level) :
    Reads (fun fuel => parseExpr fuel level) (toks sql.written ++ rest) sql.meant rest :=
  parses tight (by omega) (infix_ends ends)

theorem parses_operand
    (operand : ∀ rest, operatorLevel rest.head? ≤ sql.level →
      Reads (fun fuel => parseOperand fuel) (toks sql.written ++ rest) sql.meant rest) : sql.Parses :=
  fun _ _ _ _ _ ends more => reads_expr (operand _ ends) more

/-- An operator behind its left operand. -/
theorem parses_infix {operator : List Tok} (parses : first.Parses) (tight : sql.level ≤ first.level)
    (written : toks sql.written = toks first.written ++ operator) (begins : ∀ rest, operatorLevel (operator ++ rest).head? = sql.level)
    (reads : ∀ rest, operatorLevel rest.head? ≤ sql.level →
      Reads (fun fuel => parseOperator fuel first.meant) (operator ++ rest) sql.meant rest) : sql.Parses := by
  intro level rest left value within ends more
  rw [written, List.append_assoc]
  refine parses (Nat.le_trans within tight) (by rw [begins]; exact tight) ?_
  exact infix_goes (by rw [begins]; exact within) (reads rest ends) more

end Expressions

section Words

variable {rest : List Tok}

theorem direction_reads (descending : Bool) :
    Reads (fun _ => parseDirection) (toks (directionWritten descending) ++ rest) (some descending) rest := by
  cases descending <;> exact .always rfl

theorem no_direction (noAsc : rest.head? ≠ some (.keyword .asc_)) (noDesc : rest.head? ≠ some (.keyword .desc_)) :
    Reads (fun _ => parseDirection) rest none rest := by
  refine .peek ?_
  split
  · exact absurd ‹_› noAsc
  · exact absurd ‹_› noDesc
  · exact .pure

theorem ident_reads (tableAlias : String) :
    Reads (fun _ => parseIdent) (aliasTok tableAlias :: rest) (aliasTok tableAlias).ident rest := by
  unfold aliasTok
  split <;> exact .always rfl

theorem name_reads (text : String) : Reads (fun _ => parseName) (.name text :: rest) text rest := .always rfl

theorem number_reads (n : Nat) : Reads (fun _ => parseNumber) (.number (toString n) :: rest) n rest := by
  have chars : (toString n).toList = Nat.toDigits 10 n := String.toList_ofList
  have digits : (toString n).toList.all Char.isDigit = true := by
    rw [chars, List.all_eq_true]
    exact fun c member => Nat.isDigit_of_mem_toDigits (by decide) (by decide) member
  have value : Nat.ofDigitChars 10 (toString n).toList 0 = n := by
    rw [chars, Nat.ofDigitChars_ten_toDigits]
  refine .next ?_
  dsimp only
  rw [value]
  exact .ifTrue digits .pure

theorem preceding_reads (preceding : Bool) :
    Reads (fun _ => parsePreceding) (.keyword (if preceding then .preceding_ else .following_) :: rest) preceding rest := by
  cases preceding <;> exact .always rfl

theorem bound_reads (bound : FrameBound) : Reads (fun _ => parseBound) (toks bound.written ++ rest) bound rest := by
  cases bound with
  | currentRow => exact .always rfl
  | unbounded preceding => exact .peek (.expect (.map (preceding_reads preceding)))
  | offset rows preceding => exact .peek (.bind (number_reads rows) (.map (preceding_reads preceding)))

theorem frame_reads (frame : Option (FrameBound × FrameBound)) (ends : rest.head? ≠ some (.keyword .rows_)) :
    Reads (fun _ => parseFrame) (toks (frameWritten frame) ++ rest) frame rest := by
  cases frame with
  | none => exact .notThere ends
  | some bounds =>
      obtain ⟨top, bottom⟩ := bounds
      have tokens : toks (frameWritten (some (top, bottom))) ++ rest =
          Tok.keyword .rows_ :: .keyword .between_ :: (toks top.written ++ Tok.keyword .and_ :: (toks bottom.written ++ rest)) := by
        simp [frameWritten]
      rw [tokens]
      exact .optionally (.expect (.bind (bound_reads top) (.expect (.map (bound_reads bottom)))))

theorem limit_reads (rows : Option Limit) (ends : clauseRank rest.head? = 9) :
    Reads (fun _ => parseLimit) (toks (limitWritten rows) ++ rest) rows rest := by
  have noOffset : rest.head? ≠ some (.keyword .offset_) := @rank_ne _ _ 9 (by decide) (by omega)
  have noLimit : rest.head? ≠ some (.keyword .limit_) := @rank_ne _ _ 9 (by decide) (by omega)
  rcases rows with _ | ⟨rows, _ | offset⟩
  · exact .notThere noLimit
  · exact .optionally (.bind (number_reads rows) (.map (.notThere noOffset)))
  · exact .optionally (.bind (number_reads rows) (.map (.optionally (number_reads offset))))

end Words

section Lists

variable {α β : Type} {one : Nat → Parser Tok β} {write : α → List Tok} {value : α → β} {rest : List Tok}

/-- The keys behind their keywords, or none. -/
theorem parseKeys_reads {first : Keyword} {ends : List Tok → Prop} {all : List α}
    (each : ∀ a ∈ all, ∀ rest, ends rest → Reads one (write a ++ rest) (value a) rest)
    (comma : ∀ rest, ends (.symbol .comma :: rest)) (last : ends rest) (noComma : rest.head? ≠ some (.symbol .comma))
    (noKeyword : rest.head? ≠ some (.keyword first)) {tokens : List Tok} (none : all = [] → tokens = [])
    (some_ : ∀ a others, all = a :: others → tokens = Tok.keyword first :: .keyword .by_ ::
      (write a ++ others.flatMap fun a => .symbol .comma :: write a)) :
    Reads (fun fuel => parseKeys first (one fuel) fuel) (tokens ++ rest) (all.map value) rest := by
  cases all with
  | nil =>
      rw [none rfl]
      exact .map (.notThere noKeyword)
  | cons a others =>
      rw [some_ a others rfl, List.cons_append, List.cons_append, List.append_assoc]
      exact .map (.optionally (.expect (separated_reads write each comma last noComma)))

end Lists

section Operators

variable {left right low high : Sql} {sqls : List Sql} {rest : List Tok}

theorem comparison_reads {s : Symbol} {op : Comparison} (is : symbolComparison s = some op) (parses : right.Parses)
    (tight : 5 ≤ right.level) (ends : operatorLevel rest.head? ≤ 4) :
    Reads (fun fuel => parseOperator fuel left) (.symbol s :: (toks right.written ++ rest))
      (.compare op left right.meant) rest := by
  have step (fuel : Nat) : parseOperator (fuel + 1) left (.symbol s :: (toks right.written ++ rest)) =
      (do return .compare op left (← parseExpr fuel 5) : Parser Tok Sql) (toks right.written ++ rest) := by
    rw [parseOperator]
    cases s <;> cases is <;> rfl
  exact .step step (.map (parses.whole tight (Nat.lt_succ_of_le ends)))

theorem arithmetic_reads (op : Arithmetic) (parses : right.Parses) (tight : op.level + 1 ≤ right.level)
    (ends : operatorLevel rest.head? ≤ op.level) :
    Reads (fun fuel => parseOperator fuel left) (.symbol op.symbol :: (toks right.written ++ rest))
      (.arithmetic op left right.meant) rest := by
  have step (fuel : Nat) : parseOperator (fuel + 1) left (.symbol op.symbol :: (toks right.written ++ rest)) =
      (do return .arithmetic op left (← parseExpr fuel (op.level + 1)) : Parser Tok Sql) (toks right.written ++ rest) := by
    rw [parseOperator]
    cases op <;> rfl
  exact .step step (.map (parses.whole tight (Nat.lt_succ_of_le ends)))

theorem concat_reads (parses : right.Parses) (tight : 6 ≤ right.level) (ends : operatorLevel rest.head? ≤ 5) :
    Reads (fun fuel => parseOperator fuel left) (.symbol .concat :: (toks right.written ++ rest))
      (.concat [left, right.meant]) rest := by
  have step (fuel : Nat) : parseOperator (fuel + 1) left (.symbol .concat :: (toks right.written ++ rest)) =
      (do return .concat [left, ← parseExpr fuel 6] : Parser Tok Sql) (toks right.written ++ rest) := by
    rw [parseOperator]
    rfl
  exact .step step (.map (parses.whole tight (Nat.lt_succ_of_le ends)))

theorem connect_reads (connective : Connective) (parses : right.Parses) (tight : connective.level + 1 ≤ right.level)
    (ends : operatorLevel rest.head? ≤ connective.level) :
    Reads (fun fuel => parseOperator fuel left) (.keyword connective.keyword :: (toks right.written ++ rest))
      (.connect connective [left, right.meant]) rest := by
  have step (fuel : Nat) : parseOperator (fuel + 1) left (.keyword connective.keyword :: (toks right.written ++ rest)) =
      (do return .connect connective [left, ← parseExpr fuel (connective.level + 1)] : Parser Tok Sql)
        (toks right.written ++ rest) := by
    rw [parseOperator]
    cases connective <;> rfl
  exact .step step (.map (parses.whole tight (Nat.lt_succ_of_le ends)))

theorem distinct_reads (negated : Bool) (parses : right.Parses) (tight : 5 ≤ right.level)
    (ends : operatorLevel rest.head? ≤ 4) :
    Reads (fun fuel => parseIs (parseExpr fuel 5) left)
      (toks (notWritten negated) ++ Tok.keyword .distinct_ :: .keyword .from_ :: (toks right.written ++ rest))
      (.compare (if negated then .isNotDistinctFrom else .isDistinctFrom) left right.meant) rest := by
  have operand := parses.whole tight (Nat.lt_succ_of_le ends)
  cases negated with
  | false => exact .bind (.notThere (by simp [notWritten])) (.next (.expect (.map operand)))
  | true => exact .bind (.optionally .pure) (.next (.expect (.map operand)))

theorem isNull_reads (negated : Bool) :
    Reads (fun fuel => parseIs (parseExpr fuel 5) left) (toks (notWritten negated) ++ Tok.keyword .null_ :: rest)
      (.isNull negated left) rest := by
  cases negated with
  | false => exact .bind (.notThere (by simp [notWritten])) (.next .pure)
  | true => exact .bind (.optionally .pure) (.next .pure)

/-- A test, and what stands behind its keyword. -/
theorem test_reads (negated : Bool) {k : Keyword} (isTest : testFollows (some (.keyword k)) = true)
    {tokens : List Tok} {value : Sql}
    (reads : Reads (fun fuel => parseTest (parseExpr fuel 5) (parseExpr fuel 1) (parseQuery fuel) fuel left)
      (toks (notWritten negated) ++ Tok.keyword k :: tokens) value rest) :
    Reads (fun fuel => parseOperator fuel left) (toks (notWritten negated) ++ Tok.keyword k :: tokens) value rest := by
  refine .step (fun fuel => ?_) reads
  rw [parseOperator]
  cases negated with
  | true => rfl
  | false =>
      change (if testFollows (some (.keyword k)) = true then _ else _ : Parser Tok Sql) _ = _
      rw [if_pos isTest]

theorem between_reads (negated : Bool) (lowParses : low.Parses) (highParses : high.Parses) (lowTight : 5 ≤ low.level)
    (highTight : 5 ≤ high.level) (ends : operatorLevel rest.head? ≤ 4) :
    Reads (fun fuel => parseOperator fuel left)
      (toks (notWritten negated) ++ Tok.keyword .between_ ::
        (toks low.written ++ Tok.keyword .and_ :: (toks high.written ++ rest)))
      (.between negated left low.meant high.meant) rest := by
  have operands : Reads (fun fuel => parseExpr fuel 5) (toks low.written ++ Tok.keyword .and_ :: (toks high.written ++ rest))
      low.meant (.keyword .and_ :: (toks high.written ++ rest)) := lowParses.whole lowTight (by simp [operatorLevel])
  have last := highParses.whole highTight (Nat.lt_succ_of_le ends)
  refine test_reads negated rfl ?_
  cases negated with
  | false => exact .bind (.notThere (by simp [notWritten])) (.next (.bind operands (.expect (.map last))))
  | true => exact .bind (.optionally .pure) (.next (.bind operands (.expect (.map last))))

theorem like_reads (negated : Bool) (parses : right.Parses) (tight : 5 ≤ right.level)
    (ends : operatorLevel rest.head? ≤ 4) :
    Reads (fun fuel => parseOperator fuel left)
      (toks (notWritten negated) ++ Tok.keyword .like_ :: (toks right.written ++ rest)) (.like negated left right.meant)
      rest := by
  have operand := parses.whole tight (Nat.lt_succ_of_le ends)
  refine test_reads negated rfl ?_
  cases negated with
  | false => exact .bind (.notThere (by simp [notWritten])) (.next (.map operand))
  | true => exact .bind (.optionally .pure) (.next (.map operand))

end Operators

section Heads

variable {sql : Sql} {token : Tok} {rest : List Tok}

theorem head_ne (begun : sql.Begins) (other : begins token = false) : (toks sql.written ++ rest).head? ≠ some token := by
  obtain ⟨first, more, written, isFirst, -⟩ := begun
  rw [written]
  rintro ⟨⟩
  rw [isFirst] at other
  cases other

theorem no_arm (begun : sql.Begins) : armFollows (toks sql.written ++ rest).head? = false := by
  obtain ⟨first, more, written, isFirst, -⟩ := begun
  rw [written]
  cases first with
  | keyword k => cases k <;> first | rfl | cases isFirst
  | _ => rfl

theorem arm_ends (arm : armFollows rest.head? = true) : operatorLevel rest.head? < 1 := by
  cases rest with
  | nil => decide
  | cons first more =>
      cases first with
      | keyword k => cases k <;> first | exact Nat.zero_lt_one | cases arm
      | _ => cases arm

end Heads

theorem rparen_ends : operatorLevel (some (.symbol .rparen)) < 1 := by decide

/-- Expressions of a list, each of which can be read. -/
def AllParse (sqls : List Sql) : Prop := ∀ sql ∈ sqls, 1 ≤ sql.level ∧ sql.Parses ∧ sql.Begins

section Operands

variable {sql left value : Sql} {sqls : List Sql} {query : Query} {rest : List Tok} {arms : Arms}

theorem allMeant_map (sqls : List Sql) : allMeant sqls = sqls.map Sql.meant := by
  induction sqls with
  | nil => rfl
  | cons sql sqls ih => rw [allMeant, ih, List.map_cons]

theorem toks_tail (sqls : List Sql) :
    toks (tailWritten [sign .comma, space] sqls) = sqls.flatMap fun sql => .symbol .comma :: toks sql.written := by
  induction sqls with
  | nil => rfl
  | cons sql sqls ih => simp [tailWritten, ← ih]

theorem exprs_reads (some_ : sqls ≠ []) (each : AllParse sqls) (ends : operatorLevel rest.head? = 0)
    (noComma : rest.head? ≠ some (.symbol .comma)) :
    Reads (fun fuel => separated (.symbol .comma) (parseExpr fuel 1) fuel)
      (toks (listWritten [sign .comma, space] sqls) ++ rest) (allMeant sqls) rest := by
  cases sqls with
  | nil => exact absurd rfl some_
  | cons sql sqls =>
      have all : ∀ other ∈ sql :: sqls, ∀ rest, operatorLevel rest.head? = 0 →
          Reads (fun fuel => parseExpr fuel 1) (toks other.written ++ rest) other.meant rest := by
        intro other member rest ends
        obtain ⟨tight, parses, -⟩ := each other member
        exact parses.whole tight (by omega)
      rw [allMeant_map, listWritten, toks_append, toks_tail, List.append_assoc]
      exact separated_reads (fun sql : Sql => toks sql.written) all (fun _ => rfl) ends noComma

theorem parens_reads {α : Type} {inside : Nat → Parser Tok α} {tokens : List Tok} {value : α}
    (reads : Reads inside tokens value (.symbol .rparen :: rest)) :
    Reads (fun fuel => parseParens (inside fuel)) (.symbol .lparen :: tokens) value rest :=
  .expect (.bind reads (.expect .pure))

theorem args_reads (each : AllParse sqls) :
    Reads (fun fuel => parseArgs (parseExpr fuel 1) fuel)
      (.symbol .lparen :: (toks (listWritten [sign .comma, space] sqls) ++ Tok.symbol .rparen :: rest)) (allMeant sqls)
      rest := by
  refine parens_reads (.peek ?_)
  cases sqls with
  | nil => exact .ifTrue rfl .pure
  | cons sql sqls =>
      refine .ifFalse ?_ (exprs_reads (List.cons_ne_nil sql sqls) each rfl (by simp))
      rw [listWritten, toks_append, List.append_assoc]
      exact head_ne (each sql List.mem_cons_self).2.2 rfl

theorem inList_reads (negated : Bool) (some_ : sqls ≠ []) (each : AllParse sqls) :
    Reads (fun fuel => parseOperator fuel left)
      (toks (notWritten negated) ++ Tok.keyword .in_ :: .symbol .lparen ::
        (toks (listWritten [sign .comma, space] sqls) ++ Tok.symbol .rparen :: rest))
      (.inList negated left (allMeant sqls)) rest := by
  have noSelect : (toks (listWritten [sign .comma, space] sqls) ++ Tok.symbol .rparen :: rest).head? ≠
      some (.keyword .select_) := by
    cases sqls with
    | nil => exact absurd rfl some_
    | cons sql sqls =>
        rw [listWritten, toks_append, List.append_assoc]
        exact head_ne (each sql List.mem_cons_self).2.2 rfl
  have list := @exprs_reads _ (.symbol .rparen :: rest) some_ each rfl (by simp)
  refine test_reads negated rfl ?_
  cases negated with
  | false =>
      exact .bind (.notThere (by simp [notWritten])) (.next (parens_reads (.peek (.ifFalse noSelect (.map list)))))
  | true => exact .bind (.optionally .pure) (.next (parens_reads (.peek (.ifFalse noSelect (.map list)))))

end Operands

/-- A query expression that can be read before a parenthesis or the end. -/
structure Query.Parses (query : Query) : Prop where
  starts : ∃ more, toks query.written = Tok.keyword .select_ :: more
  reads : ∀ {rest : List Tok}, clauseRank rest.head? = 9 →
    Reads (fun fuel => parseQuery fuel) (toks query.written ++ rest) query.meant rest

/-- The WHENs of a CASE up to its END. -/
def Arms.Parses (arms : Arms) : Prop :=
  (∀ rest, armFollows (toks arms.written ++ rest).head? = true) ∧
    ∀ rest, Reads (fun fuel => parseArms fuel) (toks arms.written ++ rest) arms.meant rest

section Operands

variable {sql left value : Sql} {sqls : List Sql} {query : Query} {rest : List Tok} {arms : Arms}

theorem column_reads (qualifier name : String) :
    Reads (fun fuel => parseOperand fuel) (aliasTok qualifier :: .symbol .dot :: .name name :: rest)
      (.column (aliasTok qualifier).ident name) rest := by
  refine .step (fun fuel => ?_) .pure
  rw [parseOperand]
  unfold aliasTok
  split <;> rfl

theorem number_operand (text : String) :
    Reads (fun fuel => parseOperand fuel) (.number text :: rest) (.number text) rest :=
  .step (fun fuel => by rw [parseOperand]; rfl) .pure

theorem neg_operand {tokens : List Tok} {operand : Sql}
    (reads : Reads (fun fuel => parseExpr fuel 8) tokens operand rest) :
    Reads (fun fuel => parseOperand fuel) (.symbol .minus :: tokens) (.neg operand) rest :=
  .step (fun fuel => by rw [parseOperand]; rfl) (.map reads)

theorem not_operand {tokens : List Tok} {operand : Sql}
    (reads : Reads (fun fuel => parseExpr fuel 4) tokens operand rest) :
    Reads (fun fuel => parseOperand fuel) (.keyword .not_ :: tokens) (.not operand) rest :=
  .step (fun fuel => by rw [parseOperand]; rfl) (.map reads)

/-- A literal, its minus sign first. -/
theorem signed_parses {text : String} (written : sql.written = signed text) (meant : sql.meant = signedMeant text)
    (level : sql.level = if isSigned text then 7 else 9) : sql.Parses := by
  refine parses_operand fun rest ends => ?_
  rw [written, meant]
  by_cases minus : isSigned text = true
  · rw [level, if_pos minus] at ends
    have chars : ∃ digits, text.toList = '-' :: digits := by
      cases chars : text.toList with
      | nil => simp [isSigned, chars] at minus
      | cons c digits =>
          have same : c = '-' := by simpa [isSigned, chars] using minus
          exact ⟨digits, by rw [same]⟩
    obtain ⟨digits, chars⟩ := chars
    unfold signed signedMeant
    rw [chars]
    exact neg_operand (reads_expr (number_operand _) (infix_ends (Nat.lt_succ_of_le ends)))
  · have other (digits : List Char) : text.toList ≠ '-' :: digits := by
      intro chars
      rw [isSigned, chars] at minus
      exact minus rfl
    have plain : signed text = [some (.number text)] ∧ signedMeant text = .number text := by
      unfold signed signedMeant
      cases chars : text.toList with
      | nil => exact ⟨rfl, rfl⟩
      | cons c digits =>
          have noMinus : c ≠ '-' := fun same => other digits (same ▸ chars)
          constructor <;>
          · split
            · rename_i same
              exact absurd (List.cons.inj same).1 noMinus
            · rfl
    rw [plain.1, plain.2]
    exact number_operand text

theorem paren_reads (parses : sql.Parses) (tight : 1 ≤ sql.level) (begun : sql.Begins) :
    Reads (fun fuel => parseOperand fuel) (.symbol .lparen :: (toks sql.written ++ Tok.symbol .rparen :: rest)) sql.meant
      rest := by
  have step (fuel : Nat) : parseOperand (fuel + 1) (.symbol .lparen :: (toks sql.written ++ Tok.symbol .rparen :: rest)) =
      (do
        let inside ← parseExpr fuel 1
        expect (.symbol .rparen)
        return inside : Parser Tok Sql) (toks sql.written ++ Tok.symbol .rparen :: rest) := by
    rw [parseOperand]
    change (if _ = some (Tok.keyword .select_) then _ else _ : Parser Tok Sql) _ = _
    rw [if_neg (head_ne begun rfl)]
  exact .step step (.bind (parses.whole tight rparen_ends) (.expect .pure))

theorem subquery_reads (parses : query.Parses) :
    Reads (fun fuel => parseOperand fuel) (.symbol .lparen :: (toks query.written ++ Tok.symbol .rparen :: rest))
      (.subquery query.meant) rest := by
  obtain ⟨more, starts⟩ := parses.starts
  have step (fuel : Nat) : parseOperand (fuel + 1) (.symbol .lparen :: (toks query.written ++ Tok.symbol .rparen :: rest)) =
      (do
        let query ← parseQuery fuel
        expect (.symbol .rparen)
        return .subquery query : Parser Tok Sql) (toks query.written ++ Tok.symbol .rparen :: rest) := by
    rw [parseOperand, starts]
    rfl
  exact .step step (.bind (parses.reads rfl) (.expect .pure))

theorem exists_reads (parses : query.Parses) :
    Reads (fun fuel => parseOperand fuel)
      (.keyword .exists_ :: .symbol .lparen :: (toks query.written ++ Tok.symbol .rparen :: rest))
      (.existsQuery query.meant) rest :=
  .step (fun fuel => by rw [parseOperand]; rfl) (.map (parens_reads (parses.reads rfl)))

theorem inQuery_reads (parses : query.Parses) :
    Reads (fun fuel => parseOperator fuel left)
      (.keyword .in_ :: .symbol .lparen :: (toks query.written ++ Tok.symbol .rparen :: rest)) (.inQuery left query.meant)
      rest := by
  obtain ⟨more, starts⟩ := parses.starts
  have select : (toks query.written ++ Tok.symbol .rparen :: rest).head? = some (.keyword .select_) := by rw [starts]; rfl
  refine test_reads false rfl ?_
  exact .bind (.notThere (by simp [notWritten]))
    (.next (parens_reads (.peek (.ifTrue select (.map (parses.reads rfl))))))

theorem cast_reads (type : CastType) (parses : sql.Parses) (tight : 1 ≤ sql.level) :
    Reads (fun fuel => parseOperand fuel)
      (.keyword .cast_ :: .symbol .lparen :: (toks sql.written ++ Tok.keyword .as_ :: .keyword (.type type) :: .symbol .rparen :: rest))
      (.cast sql.meant type) rest := by
  have whole := @Sql.Parses.whole _ (.keyword .as_ :: .keyword (.type type) :: .symbol .rparen :: rest) _ parses tight
    Nat.zero_lt_one
  exact .step (fun fuel => by rw [parseOperand]; rfl) (parens_reads (.bind whole (.expect (.map (.always rfl)))))

theorem call_reads (function : Function) (each : AllParse sqls) :
    Reads (fun fuel => parseOperand fuel)
      (.keyword (.function function) :: .symbol .lparen ::
        (toks (listWritten [sign .comma, space] sqls) ++ Tok.symbol .rparen :: rest))
      (.call function (allMeant sqls)) rest :=
  .step (fun fuel => by rw [parseOperand]; rfl) (.map (args_reads each))

theorem windowCall_reads (function : WindowFunction) (each : AllParse sqls) :
    Reads (fun fuel => parseOperand fuel)
      (.keyword (.window function) :: .symbol .lparen ::
        (toks (listWritten [sign .comma, space] sqls) ++ Tok.symbol .rparen :: rest))
      (.windowCall function (allMeant sqls)) rest :=
  .step (fun fuel => by rw [parseOperand]; rfl) (.map (args_reads each))

theorem aggregate_reads (aggregate : Aggregate) (distinct : Bool) (parses : sql.Parses) (tight : 1 ≤ sql.level)
    (begun : sql.Begins) :
    Reads (fun fuel => parseOperand fuel)
      (.keyword (.aggregate aggregate) :: .symbol .lparen ::
        (toks (if distinct then [keyword .distinct_, space] else []) ++ (toks sql.written ++ Tok.symbol .rparen :: rest)))
      (.aggregate aggregate distinct sql.meant) rest := by
  have whole := @Sql.Parses.whole _ (.symbol .rparen :: rest) _ parses tight rparen_ends
  refine .step (fun fuel => by rw [parseOperand]; rfl) (parens_reads ?_)
  cases distinct with
  | true => exact .peek (.expect (.map whole))
  | false =>
      refine .peek ?_
      split
      · exact absurd ‹_› (head_ne begun rfl)
      · exact absurd ‹_› (head_ne begun rfl)
      · exact .map whole

theorem caseSearched_reads (parses : arms.Parses) :
    Reads (fun fuel => parseOperand fuel) (.keyword .case_ :: (toks arms.written ++ rest)) (.caseSearched arms.meant)
      rest := by
  have step (fuel : Nat) : parseOperand (fuel + 1) (.keyword .case_ :: (toks arms.written ++ rest)) =
      (do return .caseSearched (← parseArms fuel) : Parser Tok Sql) (toks arms.written ++ rest) := by
    rw [parseOperand]
    change (if _ then _ else _ : Parser Tok Sql) _ = _
    rw [if_pos (parses.1 rest)]
  exact .step step (.map (parses.2 rest))

theorem caseSimple_reads (subject : sql.Parses) (tight : 1 ≤ sql.level) (begun : sql.Begins) (parses : arms.Parses) :
    Reads (fun fuel => parseOperand fuel) (.keyword .case_ :: (toks sql.written ++ (toks arms.written ++ rest)))
      (.caseSimple sql.meant arms.meant) rest := by
  have step (fuel : Nat) : parseOperand (fuel + 1) (.keyword .case_ :: (toks sql.written ++ (toks arms.written ++ rest))) =
      (do return .caseSimple (← parseExpr fuel 1) (← parseArms fuel) : Parser Tok Sql)
        (toks sql.written ++ (toks arms.written ++ rest)) := by
    rw [parseOperand]
    change (if _ then _ else _ : Parser Tok Sql) _ = _
    rw [if_neg (by rw [no_arm begun]; decide)]
  exact .step step (.bind (subject.whole tight (arm_ends (parses.1 rest))) (.map (parses.2 rest)))

end Operands

section Chains

variable {operator : Tok} {between : Pieces} {pair : Sql → Sql → Sql} {tight : Nat}

/-- An operator that reads one more operand of a chain. -/
def Pairs (operator : Tok) (pair : Sql → Sql → Sql) (tight : Nat) : Prop :=
  operatorLevel (some operator) = tight ∧
    ∀ {left right : Sql} {rest : List Tok}, right.Parses → tight + 1 ≤ right.level → operatorLevel rest.head? ≤ tight →
      Reads (fun fuel => parseOperator fuel left) (operator :: (toks right.written ++ rest)) (pair left right.meant) rest

def AllTight (tight : Nat) (sqls : List Sql) : Prop := ∀ sql ∈ sqls, tight + 1 ≤ sql.level ∧ sql.Parses

/-- By induction on the operands: each is read behind those before it. -/
theorem chain_reads (pairs : Pairs operator pair tight) (isBetween : toks between = [operator]) {level : Nat}
    (within : level ≤ tight) {rest left : List Tok} {value : Sql} (ends : operatorLevel rest.head? ≤ tight)
    {operands : List Sql} (each : AllTight tight operands) (first : Sql)
    (more : Reads (fun fuel => parseInfix fuel level ((operands.map Sql.meant).foldl pair first)) rest value left) :
    Reads (fun fuel => parseInfix fuel level first) (toks (tailWritten between operands) ++ rest) value left ∧
      operatorLevel (toks (tailWritten between operands) ++ rest).head? ≤ tight := by
  induction operands generalizing first with
  | nil => exact ⟨more, ends⟩
  | cons operand operands ih =>
      obtain ⟨⟨bound, parses⟩, others⟩ := List.forall_mem_cons.mp each
      obtain ⟨later, endsLater⟩ := ih others _ more
      have tokens : toks (tailWritten between (operand :: operands)) ++ rest =
          operator :: (toks operand.written ++ (toks (tailWritten between operands) ++ rest)) := by
        simp [tailWritten, isBetween]
      have here : operatorLevel (some operator) = tight := pairs.1
      rw [tokens]
      exact ⟨infix_goes (Nat.le_trans within (Nat.le_of_eq here.symm)) (pairs.2 parses bound endsLater) later,
        Nat.le_of_eq here⟩

theorem chain_parses {sql : Sql} {operands : List Sql} (pairs : Pairs operator pair tight)
    (isBetween : toks between = [operator]) (written : sql.written = listWritten between operands)
    (meant : sql.meant = paired pair (allMeant operands)) (level : sql.level = tight) (some_ : operands ≠ [])
    (each : AllTight tight operands) : sql.Parses := by
  intro least rest left value within ends more
  cases operands with
  | nil => exact absurd rfl some_
  | cons operand operands =>
      obtain ⟨⟨bound, parses⟩, others⟩ := List.forall_mem_cons.mp each
      rw [level] at within ends
      rw [meant, allMeant_map, List.map_cons, paired] at more
      obtain ⟨later, endsLater⟩ := chain_reads pairs isBetween within ends others _ more
      rw [written, listWritten, toks_append, List.append_assoc]
      exact parses (by omega) (by omega) later

theorem concat_pairs : Pairs (.symbol .concat) (fun left right => .concat [left, right]) 5 :=
  ⟨rfl, fun parses tight ends => concat_reads parses tight ends⟩

theorem connect_pairs (connective : Connective) :
    Pairs (.keyword connective.keyword) (fun left right => .connect connective [left, right]) connective.level :=
  ⟨by cases connective <;> rfl, fun parses tight ends => connect_reads connective parses tight ends⟩

end Chains

section Arms

variable {test value : Sql} {arms : Arms}

theorem done_parses : Arms.Parses .done :=
  ⟨fun _ => rfl, fun _ => .step (fun fuel => by rw [parseArms]; rfl) .pure⟩

theorem otherwise_parses (parses : value.Parses) (tight : 1 ≤ value.level) : Arms.Parses (.otherwise value) := by
  refine ⟨fun _ => rfl, fun rest => ?_⟩
  have tokens : toks (Arms.otherwise value).written ++ rest =
      Tok.keyword .else_ :: (toks value.written ++ Tok.keyword .end_ :: rest) := by simp [Arms.written]
  rw [tokens]
  have valueReads := @Sql.Parses.whole _ (.keyword .end_ :: rest) _ parses tight Nat.zero_lt_one
  exact .call (fun _ => by rw [parseArms]) (.next (.bind valueReads (.expect .pure)))

theorem when_parses (testParses : test.Parses) (testTight : 1 ≤ test.level) (valueParses : value.Parses)
    (valueTight : 1 ≤ value.level) (armsParse : arms.Parses) : Arms.Parses (.when test value arms) := by
  refine ⟨fun _ => rfl, fun rest => ?_⟩
  have tokens : toks (Arms.when test value arms).written ++ rest =
      Tok.keyword .when_ :: (toks test.written ++ Tok.keyword .then_ :: (toks value.written ++ (toks arms.written ++ rest))) := by
    simp [Arms.written]
  have testReads := @Sql.Parses.whole _ (.keyword .then_ :: (toks value.written ++ (toks arms.written ++ rest))) _
    testParses testTight Nat.zero_lt_one
  have valueReads := valueParses.whole valueTight (arm_ends (armsParse.1 rest))
  rw [tokens]
  exact .call (fun _ => by rw [parseArms])
    (.next (.bind testReads (.expect (.bind valueReads (.map (armsParse.2 rest))))))

end Arms

end StoolapMariadb.SqlGen
