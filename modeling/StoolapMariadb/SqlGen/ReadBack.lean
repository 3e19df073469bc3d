import StoolapMariadb.SqlGen.Clauses

namespace StoolapMariadb.SqlGen

/-! Parsing the tokens of what is written gives back what it means. -/

open Parsing
open Lexer (Symbol)

section Operators

variable {left right low high : Sql} {sqls : List Sql} {query : Query}

theorem compare_parses (op : Comparison) (leftParses : left.Parses) (leftTight : 5 ≤ left.level)
    (rightParses : right.Parses) (rightTight : 5 ≤ right.level) : (Sql.compare op left right).Parses := by
  have written : toks (Sql.compare op left right).written = toks left.written ++ (toks op.written ++ toks right.written) := by
    simp [Sql.written]
  have tight : (Sql.compare op left right).level ≤ left.level := Nat.le_trans (Nat.le_succ 4) leftTight
  refine parses_infix leftParses tight written (fun rest => ?_) fun rest ends => ?_
  · cases op <;> rfl
  · rw [List.append_assoc]
    cases op with
    | isNotDistinctFrom => exact is_reads (distinct_reads true rightParses rightTight ends)
    | isDistinctFrom => exact is_reads (distinct_reads false rightParses rightTight ends)
    | _ => exact comparison_reads rfl rightParses rightTight ends

theorem arithmetic_parses (op : Arithmetic) (leftParses : left.Parses) (leftTight : op.level ≤ left.level)
    (rightParses : right.Parses) (rightTight : op.level + 1 ≤ right.level) : (Sql.arithmetic op left right).Parses := by
  have written : toks (Sql.arithmetic op left right).written =
      toks left.written ++ (Tok.symbol op.symbol :: toks right.written) := by
    simp [Sql.written]
  refine parses_infix leftParses leftTight written (fun rest => ?_) fun rest ends => ?_
  · cases op <;> rfl
  · exact arithmetic_reads op rightParses rightTight ends

theorem isNull_parses (negated : Bool) (parses : left.Parses) (tight : 5 ≤ left.level) :
    (Sql.isNull negated left).Parses := by
  have written : toks (Sql.isNull negated left).written =
      toks left.written ++ (Tok.keyword .is_ :: (toks (notWritten negated) ++ [Tok.keyword .null_])) := by
    simp [Sql.written]
  refine parses_infix parses (Nat.le_trans (Nat.le_succ 4) tight) written (fun _ => rfl) fun rest _ => ?_
  rw [List.cons_append, List.append_assoc]
  exact is_reads (isNull_reads negated)

/-- The keyword of a test behind its left operand. -/
theorem test_begins {k : Keyword} (isTest : testFollows (some (.keyword k)) = true) (negated : Bool)
    (tokens rest : List Tok) :
    operatorLevel ((toks (notWritten negated) ++ Tok.keyword k :: tokens) ++ rest).head? = 4 := by
  cases negated with
  | true => rfl
  | false => cases k <;> first | rfl | cases isTest

theorem between_parses (negated : Bool) (parses : left.Parses) (tight : 5 ≤ left.level) (lowParses : low.Parses)
    (lowTight : 5 ≤ low.level) (highParses : high.Parses) (highTight : 5 ≤ high.level) :
    (Sql.between negated left low high).Parses := by
  have written : toks (Sql.between negated left low high).written = toks left.written ++
      (toks (notWritten negated) ++ Tok.keyword .between_ :: (toks low.written ++ Tok.keyword .and_ :: toks high.written)) := by
    simp [Sql.written]
  refine parses_infix parses (Nat.le_trans (Nat.le_succ 4) tight) written (test_begins rfl negated _) fun rest ends => ?_
  rw [List.append_assoc, List.cons_append, List.append_assoc, List.cons_append]
  exact between_reads negated lowParses highParses lowTight highTight ends

theorem like_parses (negated : Bool) (parses : left.Parses) (tight : 5 ≤ left.level) (rightParses : right.Parses)
    (rightTight : 5 ≤ right.level) : (Sql.like negated left right).Parses := by
  have written : toks (Sql.like negated left right).written =
      toks left.written ++ (toks (notWritten negated) ++ Tok.keyword .like_ :: toks right.written) := by
    simp [Sql.written]
  refine parses_infix parses (Nat.le_trans (Nat.le_succ 4) tight) written (test_begins rfl negated _) fun rest ends => ?_
  rw [List.append_assoc, List.cons_append]
  exact like_reads negated rightParses rightTight ends

theorem inList_parses (negated : Bool) (parses : left.Parses) (tight : 5 ≤ left.level) (some_ : sqls ≠ [])
    (each : AllParse sqls) : (Sql.inList negated left sqls).Parses := by
  have written : toks (Sql.inList negated left sqls).written = toks left.written ++ (toks (notWritten negated) ++
      Tok.keyword .in_ :: .symbol .lparen :: (toks (listWritten [sign .comma, space] sqls) ++ [Tok.symbol .rparen])) := by
    simp [Sql.written]
  refine parses_infix parses (Nat.le_trans (Nat.le_succ 4) tight) written (test_begins rfl negated _) fun rest ends => ?_
  rw [List.append_assoc, List.cons_append, List.cons_append, List.append_assoc]
  exact inList_reads negated some_ each

theorem inQuery_parses (parses : left.Parses) (tight : 5 ≤ left.level) (queryParses : query.Parses) :
    (Sql.inQuery left query).Parses := by
  have written : toks (Sql.inQuery left query).written =
      toks left.written ++ (Tok.keyword .in_ :: .symbol .lparen :: (toks query.written ++ [Tok.symbol .rparen])) := by
    simp [Sql.written]
  refine parses_infix parses (Nat.le_trans (Nat.le_succ 4) tight) written (fun _ => rfl) fun rest _ => ?_
  rw [List.cons_append, List.cons_append, List.append_assoc]
  exact inQuery_reads queryParses

theorem windowed_parses {partition order : List Key} (frame : Option (FrameBound × FrameBound)) (parses : left.Parses)
    (tight : 8 ≤ left.level) (partitionParses : ∀ key ∈ partition, key.Parses) (orderParses : ∀ key ∈ order, key.Parses) :
    (Sql.windowed left partition order frame).Parses := by
  have written : toks (Sql.windowed left partition order frame).written = toks left.written ++
      (Tok.keyword .over_ :: .symbol .lparen :: (toks (keysWritten [keyword .partition_, space, keyword .by_, space] partition) ++
        (toks (keysWritten [keyword .order_, space, keyword .by_, space] order) ++
          (toks (frameWritten frame) ++ [Tok.symbol .rparen])))) := by
    simp [Sql.written, toks_part]
  refine parses_infix parses tight written (fun _ => rfl) fun rest _ => ?_
  rw [List.cons_append, List.cons_append, List.append_assoc, List.append_assoc, List.append_assoc]
  exact over_reads frame partitionParses orderParses

end Operators

section Operands

variable {sql operand : Sql} {sqls : List Sql} {query : Query} {arms : Arms}

/-- An operand, by its tokens. -/
theorem parses_tokens {tokens : List Tok} (written : toks sql.written = tokens)
    (reads : ∀ rest, operatorLevel rest.head? ≤ sql.level →
      Reads (fun fuel => parseOperand fuel) (tokens ++ rest) sql.meant rest) : sql.Parses :=
  parses_operand (by rw [written]; exact reads)

theorem paren_parses (parses : operand.Parses) (tight : 1 ≤ operand.level) (begun : operand.Begins) :
    (Sql.paren operand).Parses := by
  refine parses_tokens (toks_paren operand) fun rest _ => ?_
  rw [List.cons_append, List.append_assoc]
  exact paren_reads parses tight begun

theorem subquery_parses (parses : query.Parses) : (Sql.paren (.subquery query)).Parses := by
  refine parses_tokens (toks_paren _) fun rest _ => ?_
  rw [List.cons_append, List.append_assoc]
  exact subquery_reads parses

theorem exists_parses (parses : query.Parses) : (Sql.existsQuery query).Parses := by
  have written : toks (Sql.existsQuery query).written =
      Tok.keyword .exists_ :: .symbol .lparen :: (toks query.written ++ [Tok.symbol .rparen]) := by
    simp [Sql.written]
  refine parses_tokens written fun rest _ => ?_
  rw [List.cons_append, List.cons_append, List.append_assoc]
  exact exists_reads parses

theorem not_parses (parses : operand.Parses) (tight : 4 ≤ operand.level) : (Sql.not operand).Parses := by
  have written : toks (Sql.not operand).written = Tok.keyword .not_ :: toks operand.written := by simp [Sql.written]
  exact parses_tokens written fun rest ends => not_operand (parses.whole tight (Nat.lt_succ_of_le ends))

theorem neg_parses (parses : operand.Parses) (tight : 8 ≤ operand.level) : (Sql.neg operand).Parses := by
  have written : toks (Sql.neg operand).written = Tok.symbol .minus :: toks operand.written := by simp [Sql.written]
  exact parses_tokens written fun rest ends => neg_operand (parses.whole tight (Nat.lt_succ_of_le ends))

theorem caseSearched_parses (parses : arms.Parses) : (Sql.caseSearched arms).Parses := by
  have written : toks (Sql.caseSearched arms).written = Tok.keyword .case_ :: toks arms.written := by simp [Sql.written]
  exact parses_tokens written fun rest _ => caseSearched_reads parses

theorem caseSimple_parses (subject : sql.Parses) (tight : 1 ≤ sql.level) (begun : sql.Begins) (parses : arms.Parses) :
    (Sql.caseSimple sql arms).Parses := by
  have written : toks (Sql.caseSimple sql arms).written = Tok.keyword .case_ :: (toks sql.written ++ toks arms.written) := by
    simp [Sql.written]
  refine parses_tokens written fun rest _ => ?_
  rw [List.cons_append, List.append_assoc]
  exact caseSimple_reads subject tight begun parses

theorem cast_parses (type : CastType) (parses : operand.Parses) (tight : 1 ≤ operand.level) :
    (Sql.cast operand type).Parses := by
  have written : toks (Sql.cast operand type).written = Tok.keyword .cast_ :: .symbol .lparen ::
      (toks operand.written ++ [Tok.keyword .as_, .keyword (.type type), .symbol .rparen]) := by
    simp [Sql.written]
  refine parses_tokens written fun rest _ => ?_
  rw [List.cons_append, List.cons_append, List.append_assoc]
  exact cast_reads type parses tight

theorem call_parses (function : Function) (each : AllParse sqls) : (Sql.call function sqls).Parses := by
  have written : toks (Sql.call function sqls).written = Tok.keyword (.function function) :: .symbol .lparen ::
      (toks (listWritten [sign .comma, space] sqls) ++ [Tok.symbol .rparen]) := by
    simp [Sql.written]
  refine parses_tokens written fun rest _ => ?_
  rw [List.cons_append, List.cons_append, List.append_assoc]
  exact call_reads function each

theorem windowCall_parses (function : WindowFunction) (each : AllParse sqls) : (Sql.windowCall function sqls).Parses := by
  have written : toks (Sql.windowCall function sqls).written = Tok.keyword (.window function) :: .symbol .lparen ::
      (toks (listWritten [sign .comma, space] sqls) ++ [Tok.symbol .rparen]) := by
    simp [Sql.written]
  refine parses_tokens written fun rest _ => ?_
  rw [List.cons_append, List.cons_append, List.append_assoc]
  exact windowCall_reads function each

theorem aggregate_parses (aggregate : Aggregate) (distinct : Bool) (parses : operand.Parses) (tight : 1 ≤ operand.level)
    (begun : operand.Begins) : (Sql.aggregate aggregate distinct operand).Parses := by
  have written : toks (Sql.aggregate aggregate distinct operand).written =
      Tok.keyword (.aggregate aggregate) :: .symbol .lparen ::
        (toks (if distinct then [keyword .distinct_, space] else []) ++ (toks operand.written ++ [Tok.symbol .rparen])) := by
    simp [Sql.written]
  refine parses_tokens written fun rest _ => ?_
  rw [List.cons_append, List.cons_append, List.append_assoc, List.append_assoc]
  exact aggregate_reads aggregate distinct parses tight begun

end Operands

/-- Expressions of a list that bind so tight and can be read. -/
def AllBack (level : Nat) (sqls : List Sql) : Prop := ∀ sql ∈ sqls, level ≤ sql.level ∧ sql.Parses ∧ sql.Begins

theorem AllBack.tight {level : Nat} {sqls : List Sql} (back : AllBack (level + 1) sqls) : AllTight level sqls :=
  fun sql member => ⟨(back sql member).1, (back sql member).2.1⟩

theorem AllBack.parens {sqls : List Sql} (back : AllBack 1 sqls) : AllParens sqls := by
  intro sql member
  obtain ⟨tight, parses, begun⟩ := back sql member
  exact paren_parses parses tight begun

theorem concat_parses {sqls : List Sql} (some_ : sqls ≠ []) (back : AllBack 6 sqls) : (Sql.concat sqls).Parses :=
  chain_parses concat_pairs rfl rfl rfl rfl some_ back.tight

theorem connect_parses (connective : Connective) {sqls : List Sql} (some_ : sqls ≠ [])
    (back : AllBack (connective.level + 1) sqls) : (Sql.connect connective sqls).Parses :=
  chain_parses (connect_pairs connective) (by cases connective <;> rfl) rfl rfl rfl some_ back.tight

theorem Sql.level_pos (sql : Sql) (operand : ∀ query, sql ≠ .subquery query) : 1 ≤ sql.level := by
  cases sql with
  | integer _ | number _ =>
      rw [Sql.level]
      split <;> decide
  | arithmetic op _ _ => cases op <;> exact Nat.le_add_left ..
  | connect connective _ => cases connective <;> exact Nat.le_add_left ..
  | subquery query => exact absurd rfl (operand query)
  | _ => exact Nat.le_add_left ..

section Shaped

mutual

/-- By induction on what is written. -/
theorem Sql.parses : (sql : Sql) → sql.Shaped Unsigned → 1 ≤ sql.level → sql.Parses
  | .column qualifier name, _, _ => parses_tokens rfl fun _ _ => column_reads qualifier name
  | .null, _, _ => parses_tokens rfl fun _ _ => .step (fun _ => by rw [parseOperand]; rfl) .pure
  | .text bytes, _, _ => parses_tokens rfl fun _ _ => .step (fun _ => by rw [parseOperand]; rfl) .pure
  | .countAll, _, _ => parses_tokens rfl fun _ _ => countAll_reads
  | .integer _, _, _ => signed_parses rfl rfl rfl
  | .number _, _, _ => signed_parses rfl rfl rfl
  | .paren operand, shaped, _ => by
      have parses := Sql.parses operand shaped
      have begun := @Sql.written_begins Unsigned operand shaped
      have isOperand := Sql.level_pos operand
      cases operand with
      | subquery query => exact subquery_parses (Query.parses query shaped).1
      | _ =>
          have tight := isOperand (by rintro _ ⟨⟩)
          exact paren_parses (parses tight) tight (begun tight)
  | .compare op left right, ⟨⟨leftTight, leftShaped⟩, rightTight, rightShaped⟩, _ =>
      compare_parses op (Sql.parses left leftShaped (Nat.le_trans (by decide) leftTight)) leftTight
        (Sql.parses right rightShaped (Nat.le_trans (by decide) rightTight)) rightTight
  | .arithmetic op left right, ⟨⟨leftTight, leftShaped⟩, rightTight, rightShaped⟩, operator =>
      arithmetic_parses op (Sql.parses left leftShaped (Nat.le_trans operator leftTight)) leftTight
        (Sql.parses right rightShaped (Nat.le_trans (Nat.le_add_left ..) rightTight)) rightTight
  | .concat sqls, ⟨some_, shaped⟩, _ => concat_parses some_ (all_parses sqls shaped (by decide))
  | .connect connective sqls, ⟨some_, shaped⟩, _ =>
      connect_parses connective some_ (all_parses sqls shaped (Nat.le_add_left ..))
  | .isNull negated operand, ⟨tight, shaped⟩, _ =>
      isNull_parses negated (Sql.parses operand shaped (Nat.le_trans (by decide) tight)) tight
  | .between negated value low high, ⟨⟨tight, shaped⟩, ⟨lowTight, lowShaped⟩, highTight, highShaped⟩, _ =>
      between_parses negated (Sql.parses value shaped (Nat.le_trans (by decide) tight)) tight
        (Sql.parses low lowShaped (Nat.le_trans (by decide) lowTight)) lowTight
        (Sql.parses high highShaped (Nat.le_trans (by decide) highTight)) highTight
  | .inList negated value list, ⟨⟨tight, shaped⟩, some_, listShaped⟩, _ =>
      inList_parses negated (Sql.parses value shaped (Nat.le_trans (by decide) tight)) tight some_
        (all_parses list listShaped (Nat.le_refl 1))
  | .like negated value pattern, ⟨⟨tight, shaped⟩, patternTight, patternShaped⟩, _ =>
      like_parses negated (Sql.parses value shaped (Nat.le_trans (by decide) tight)) tight
        (Sql.parses pattern patternShaped (Nat.le_trans (by decide) patternTight)) patternTight
  | .not operand, ⟨tight, shaped⟩, _ =>
      not_parses (Sql.parses operand shaped (Nat.le_trans (by decide) tight)) tight
  -- Behind a minus sign no other may follow.
  | .neg operand, ⟨tight, _, shaped⟩, _ =>
      neg_parses (Sql.parses operand shaped (Nat.le_trans (show 1 ≤ 8 by decide) tight)) tight
  | .caseSearched arms, shaped, _ => caseSearched_parses (Arms.parses arms shaped)
  | .caseSimple subject arms, ⟨⟨tight, shaped⟩, armsShaped⟩, _ =>
      caseSimple_parses (Sql.parses subject shaped tight) tight (Sql.written_begins subject shaped tight)
        (Arms.parses arms armsShaped)
  | .cast operand type, ⟨tight, shaped⟩, _ => cast_parses type (Sql.parses operand shaped tight) tight
  | .call function args, shaped, _ => call_parses function (all_parses args shaped (Nat.le_refl 1))
  | .windowCall function args, shaped, _ => windowCall_parses function (all_parses args shaped (Nat.le_refl 1))
  | .aggregate aggregate distinct arg, ⟨tight, shaped⟩, _ =>
      aggregate_parses aggregate distinct (Sql.parses arg shaped tight) tight (Sql.written_begins arg shaped tight)
  | .windowed function partition order frame, ⟨⟨tight, shaped⟩, partitionShaped, orderShaped⟩, _ =>
      windowed_parses frame (Sql.parses function shaped (Nat.le_trans (by decide) tight)) tight
        (keys_parse partition partitionShaped) (keys_parse order orderShaped)
  | .subquery _, _, operator => absurd operator (by simp [Sql.level])
  | .existsQuery query, shaped, _ => exists_parses (Query.parses query shaped).1
  | .inQuery value query, ⟨⟨tight, shaped⟩, queryShaped⟩, _ =>
      inQuery_parses (Sql.parses value shaped (Nat.le_trans (by decide) tight)) tight (Query.parses query queryShaped).1

theorem all_parses {level : Nat} : (sqls : List Sql) → AllShaped Unsigned level sqls → 1 ≤ level → AllBack level sqls
  | [], _, _ => by simp [AllBack]
  | sql :: sqls, ⟨⟨tight, shaped⟩, others⟩, operator => by
      have here := Nat.le_trans operator tight
      exact List.forall_mem_cons.mpr
        ⟨⟨tight, Sql.parses sql shaped here, Sql.written_begins sql shaped here⟩, all_parses sqls others operator⟩

theorem option_parses : (having : Option Sql) → OptionShaped Unsigned having → HavingParses having
  | none, _ => trivial
  | some sql, ⟨tight, shaped⟩ => ⟨tight, Sql.parses sql shaped tight⟩

theorem Arms.parses : (arms : Arms) → arms.Shaped Unsigned → arms.Parses
  | .done, _ => done_parses
  | .otherwise value, ⟨tight, shaped⟩ => otherwise_parses (Sql.parses value shaped tight) tight
  | .when test value rest, ⟨⟨testTight, testShaped⟩, ⟨tight, shaped⟩, restShaped⟩ =>
      when_parses (Sql.parses test testShaped testTight) testTight (Sql.parses value shaped tight) tight
        (Arms.parses rest restShaped)

theorem Key.parses : (key : Key) → key.Shaped Unsigned → key.Parses
  | .mk value _, ⟨tight, shaped⟩ => ⟨tight, Sql.parses value shaped tight⟩

theorem keys_parse : (keys : List Key) → KeysShaped Unsigned keys → ∀ key ∈ keys, key.Parses
  | [], _ => by simp
  | key :: keys, ⟨shaped, others⟩ => List.forall_mem_cons.mpr ⟨Key.parses key shaped, keys_parse keys others⟩

theorem Output.parses : (output : Output) → output.Shaped Unsigned → output.Parses
  | .mk value _, ⟨tight, shaped⟩ => ⟨tight, Sql.parses value shaped tight, Sql.written_begins value shaped tight⟩

theorem outputs_parse : (outputs : List Output) → OutputsShaped Unsigned outputs → ∀ output ∈ outputs, output.Parses
  | [], _ => by simp
  | output :: outputs, ⟨shaped, others⟩ =>
      List.forall_mem_cons.mpr ⟨Output.parses output shaped, outputs_parse outputs others⟩

theorem list_parses : (list : Option (List Output)) → ListShaped Unsigned list → ListParses list
  | none, _ => trivial
  | some list, ⟨some_, shaped⟩ => ⟨some_, outputs_parse list shaped⟩

theorem Query.parses : (query : Query) → query.Shaped Unsigned → query.Parses ∧ (query.isLeg = true → query.LegParses)
  | .select _ list source filters groupBy having orderBy _,
      ⟨listShaped, sourceShaped, filtersShaped, groupShaped, havingShaped, orderShaped⟩ => by
      have listParses := list_parses list listShaped
      have sourceParses := source_parses source sourceShaped
      have filtersParse := (all_parses filters filtersShaped (Nat.le_refl 1)).parens
      have groupParses := keys_parse groupBy groupShaped
      have havingParses := option_parses having havingShaped
      exact ⟨select_parses listParses sourceParses filtersParse groupParses havingParses (keys_parse orderBy orderShaped),
        select_legParses listParses sourceParses filtersParse groupParses havingParses⟩
  | .legs first rest names rows, ⟨⟨isLeg, firstShaped⟩, some_, restShaped⟩ =>
      ⟨legs_parses ((Query.parses first firstShaped).2 isLeg) some_ (legs_parse rest restShaped) names rows,
        fun leg => absurd leg Bool.false_ne_true⟩

theorem Leg.parses : (leg : Leg) → leg.Shaped Unsigned → leg.Parses
  | .mk _ _ query, ⟨isLeg, shaped⟩ => (Query.parses query shaped).2 isLeg

theorem legs_parse : (legs : List Leg) → LegsShaped Unsigned legs → ∀ leg ∈ legs, leg.Parses
  | [], _ => by simp
  | leg :: legs, ⟨shaped, others⟩ => List.forall_mem_cons.mpr ⟨Leg.parses leg shaped, legs_parse legs others⟩

theorem Source.parses : (source : Source) → source.Shaped Unsigned → source.Parses
  | .table name tableAlias, _ => table_parses name tableAlias
  | .derived query tableAlias, ⟨shaped, _⟩ => derived_parses tableAlias (Query.parses query shaped).1

theorem Joined.parses : (joined : Joined) → joined.Shaped Unsigned → joined.Parses
  | .mk _ source on, ⟨isJoin, shaped, onShaped⟩ =>
      ⟨isJoin, Source.parses source shaped, (all_parses on onShaped (Nat.le_refl 1)).parens⟩

theorem joins_parse : (joins : List Joined) → JoinsShaped Unsigned joins → ∀ joined ∈ joins, joined.Parses
  | [], _ => by simp
  | joined :: joins, ⟨shaped, others⟩ => List.forall_mem_cons.mpr ⟨Joined.parses joined shaped, joins_parse joins others⟩

theorem source_parses : (source : List Joined) → SourceShaped Unsigned source → SourceParses source
  | [], shaped => shaped.elim
  | .mk _ source _ :: joins, ⟨⟨first, alone, shaped⟩, others⟩ =>
      ⟨⟨first, alone, Source.parses source shaped⟩, joins_parse joins others⟩

end

end Shaped

section Statements

variable {sets : List (String × Sql)}

theorem filter_reads (filter : Option Sql) (shaped : OptionShaped Unsigned filter) :
    Reads (fun fuel => optionally (.keyword .where_) (parseExpr fuel 1)) (toks (filterWritten filter))
      (filter.map Sql.meant) [] := by
  cases filter with
  | none => exact .notThere (by simp [filterWritten])
  | some condition =>
      have whole := @Sql.Parses.whole condition [] 1 (Sql.parses condition shaped.2 shaped.1) shaped.1 Nat.zero_lt_one
      rw [List.append_nil] at whole
      exact .optionally whole

theorem filter_ends (filter : Option Sql) : operatorLevel (toks (filterWritten filter)).head? = 0 ∧
    (toks (filterWritten filter)).head? ≠ some (.symbol .comma) := by
  cases filter <;> simp [filterWritten, operatorLevel]

theorem set_reads {set : String × Sql} {rest : List Tok} (shaped : 1 ≤ set.2.level ∧ set.2.Shaped Unsigned)
    (ends : operatorLevel rest.head? = 0) :
    Reads (fun fuel => parseSet (parseExpr fuel 1)) (toks (setWritten set.1 set.2) ++ rest) (set.1, set.2.meant) rest := by
  have whole := (Sql.parses set.2 shaped.2 shaped.1).whole shaped.1 (Nat.lt_of_le_of_lt (Nat.le_of_eq ends) Nat.zero_lt_one)
  exact .bind (name_reads set.1) (.expect (.map whole))

theorem toks_sets (set : String × Sql) (sets : List (String × Sql)) :
    toks (commasWritten ((set :: sets).map fun set => setWritten set.1 set.2)) =
      toks (setWritten set.1 set.2) ++ sets.flatMap fun set => .symbol .comma :: toks (setWritten set.1 set.2) := by
  have more : toks (moreWritten (sets.map fun set => setWritten set.1 set.2)) =
      sets.flatMap fun set => .symbol .comma :: toks (setWritten set.1 set.2) := by
    induction sets with
    | nil => rfl
    | cons set sets ih => simpa [moreWritten] using ih
  simp [commasWritten, more]

theorem sets_reads {rest : List Tok} (some_ : sets ≠ []) (shaped : SetsShaped Unsigned sets)
    (ends : operatorLevel rest.head? = 0) (noComma : rest.head? ≠ some (.symbol .comma)) :
    Reads (fun fuel => separated (.symbol .comma) (parseSet (parseExpr fuel 1)) fuel)
      (toks (commasWritten (sets.map fun set => setWritten set.1 set.2)) ++ rest)
      (sets.map fun set => (set.1, set.2.meant)) rest := by
  cases sets with
  | nil => exact absurd rfl some_
  | cons set sets =>
      have each : ∀ other ∈ set :: sets, ∀ rest, operatorLevel rest.head? = 0 →
          Reads (fun fuel => parseSet (parseExpr fuel 1)) (toks (setWritten other.1 other.2) ++ rest)
            (other.1, other.2.meant) rest :=
        fun other member rest ends => set_reads (shaped other member) ends
      rw [toks_sets, List.append_assoc]
      exact separated_reads (fun set : String × Sql => toks (setWritten set.1 set.2)) each (fun _ => rfl) ends noComma

theorem Statement.parses (statement : Statement) (shaped : statement.Shaped Unsigned) :
    Reads (fun fuel => parseStatement fuel) (toks statement.written) statement.meant [] := by
  cases statement with
  | update table sets filter =>
      obtain ⟨-, some_, setsShaped, filterShaped⟩ := shaped
      obtain ⟨ends, noComma⟩ := filter_ends filter
      have tokens : toks (Statement.update table sets filter).written = Tok.keyword .update_ :: aliasTok table ::
          .keyword .set_ :: (toks (commasWritten (sets.map fun set => setWritten set.1 set.2)) ++
            toks (filterWritten filter)) := by
        simp [Statement.written]
      rw [tokens]
      exact .next (.bind (ident_reads table) (.expect (.bind (sets_reads some_ setsShaped ends noComma)
        (.map (filter_reads filter filterShaped)))))
  | delete table filter =>
      have tokens : toks (Statement.delete table filter).written =
          Tok.keyword .delete_ :: .keyword .from_ :: aliasTok table :: toks (filterWritten filter) := by
        simp [Statement.written]
      rw [tokens]
      exact .next (.expect (.bind (ident_reads table) (.map (filter_reads filter shaped.2))))

theorem ModifyCount.parses (count : ModifyCount) (shaped : count.Shaped Unsigned) :
    Reads (fun fuel => parseCount fuel) (toks count.written) count.meant [] := by
  have tokens : toks count.written = Tok.keyword .select_ :: .keyword (.aggregate .count) :: .symbol .lparen ::
      .symbol .star :: .symbol .rparen :: .keyword .from_ :: aliasTok count.table :: toks (filterWritten count.filter) := by
    simp [ModifyCount.written, Sql.written]
  have star : Reads (fun _ => parseParens (expect (.symbol .star)))
      (.symbol .lparen :: .symbol .star :: .symbol .rparen :: .keyword .from_ :: aliasTok count.table ::
        toks (filterWritten count.filter)) ()
      (.keyword .from_ :: aliasTok count.table :: toks (filterWritten count.filter)) := .always rfl
  rw [tokens]
  exact .expect (.expect (.bind star (.expect (.bind (ident_reads count.table)
    (.map (filter_reads count.filter shaped.2))))))

end Statements

section Texts

variable {α : Type} {pieces : Pieces} {parse : Nat → Parser Tok α} {meant : α} {apart : Prop}

/-- The text splits into the tokens it is written with, none of them lost or
changed by what stands next to it, and they parse as what is meant. -/
def ReadsBack (pieces : Pieces) (parse : Nat → Parser Tok α) (meant : α) : Prop :=
  ReadsAs pieces ∧ ∃ tokens, tokenize (textOf pieces) = some tokens ∧ Reads parse tokens meant []

theorem readsBack_iff (good : Good pieces apart) (parses : apart → Reads parse (toks pieces) meant []) :
    ReadsBack pieces parse meant ↔ apart := by
  obtain ⟨close, isApart⟩ := good
  constructor
  · intro back
    exact isApart.mp ((readsAs_iff close).mp back.1)
  · intro holds
    have reads := (readsAs_iff close).mpr (isApart.mpr holds)
    have whole := reads pieces.length
    rw [List.take_length] at whole
    exact ⟨reads, toks pieces, whole, parses holds⟩

def Query.ReadsBack (query : Query) : Prop :=
  SqlGen.ReadsBack query.written (fun fuel => parseQuery fuel) query.meant

def Statement.ReadsBack (statement : Statement) : Prop :=
  SqlGen.ReadsBack statement.written (fun fuel => parseStatement fuel) statement.meant

def ModifyCount.ReadsBack (count : ModifyCount) : Prop :=
  SqlGen.ReadsBack count.written (fun fuel => parseCount fuel) count.meant

/-- Written with its operands in parentheses, the SQL reads back just when no
minus sign is written before an operand with its own. -/
theorem Query.readsBack_iff (query : Query) (shaped : query.Shaped Anything) :
    query.ReadsBack ↔ query.Shaped Unsigned := by
  refine SqlGen.readsBack_iff (Query.written_good query shaped) fun unsigned => ?_
  have whole := @Query.Parses.reads _ (Query.parses query unsigned).1 [] rfl
  rwa [List.append_nil] at whole

theorem Statement.readsBack_iff (statement : Statement) (shaped : statement.Shaped Anything) :
    statement.ReadsBack ↔ statement.Shaped Unsigned :=
  SqlGen.readsBack_iff (Statement.written_good statement shaped) (Statement.parses statement)

theorem ModifyCount.readsBack_iff (count : ModifyCount) (shaped : count.Shaped Anything) :
    count.ReadsBack ↔ count.Shaped Unsigned :=
  SqlGen.readsBack_iff (ModifyCount.written_good count shaped) (ModifyCount.parses count)

end Texts

end StoolapMariadb.SqlGen
