import StoolapMariadb.SqlGen.Operands

namespace StoolapMariadb.SqlGen

/-! What the parser reads of a query, clause by clause. -/

open Parsing
open Lexer (Symbol)

section Clauses

variable {part rest : List Tok} {rank : Nat} {first : Keyword} {head : Pieces}

/-- Nothing, or a part that opens its clause. -/
def Opens (rank : Nat) (part : List Tok) : Prop :=
  part = [] ∨ ∃ token more, part = token :: more ∧ rank ≤ clauseRank (some token)

theorem late_part (opens : Opens rank part) (late : rank ≤ clauseRank rest.head?) :
    rank ≤ clauseRank (part ++ rest).head? := by
  rcases opens with rfl | ⟨token, more, rfl, opened⟩
  · exact late
  · exact opened

theorem keys_open (isHead : toks head = [Tok.keyword first, .keyword .by_]) (opened : rank ≤ clauseRank (some (.keyword first)))
    (keys : List Key) : Opens rank (toks (keysWritten head keys)) := by
  cases keys with
  | nil => exact .inl rfl
  | cons key keys =>
      refine .inr ⟨.keyword first, .keyword .by_ :: toks (key.written ++ moreKeysWritten keys), ?_, opened⟩
      rw [keysWritten, toks_append, isHead]
      rfl

theorem frame_open (frame : Option (FrameBound × FrameBound)) : Opens 8 (toks (frameWritten frame)) := by
  cases frame with
  | none => exact .inl rfl
  | some bounds => exact .inr ⟨.keyword .rows_, _, rfl, Nat.le_refl _⟩

theorem limit_open (rows : Option Limit) : Opens 8 (toks (limitWritten rows)) := by
  cases rows with
  | none => exact .inl rfl
  | some rows => exact .inr ⟨.keyword .limit_, _, rfl, Nat.le_refl _⟩

theorem conditions_open (opened : rank ≤ clauseRank (some (.keyword first))) (conditions : List Sql) :
    Opens rank (toks (conditionsWritten first conditions)) := by
  cases conditions with
  | nil => exact .inl rfl
  | cons condition conditions => exact .inr ⟨.keyword first, _, rfl, opened⟩

theorem having_open (having : Option Sql) : Opens 5 (toks (havingWritten having)) := by
  cases having with
  | none => exact .inl rfl
  | some condition => exact .inr ⟨.keyword .having_, _, rfl, Nat.le_refl _⟩

end Clauses

def Key.Parses : Key → Prop
  | .mk value _ => 1 ≤ value.level ∧ value.Parses

def Output.Parses : Output → Prop
  | .mk value _ => 1 ≤ value.level ∧ value.Parses ∧ value.Begins

section Keys

variable {rest : List Tok} {keys : List Key} {first : Keyword} {head : Pieces}

/-- What may follow a key: no operator, and no direction. -/
def KeyEnds (rest : List Tok) : Prop :=
  operatorLevel rest.head? = 0 ∧ rest.head? ≠ some (.keyword .asc_) ∧ rest.head? ≠ some (.keyword .desc_)

theorem key_reads {key : Key} (parses : key.Parses) (ends : KeyEnds rest) :
    Reads (fun fuel => parseKey (parseExpr fuel 1)) (toks key.written ++ rest) key.meant rest := by
  obtain ⟨value, direction⟩ := key
  obtain ⟨tight, parses⟩ := parses
  cases direction with
  | none => exact .bind (parses.whole tight (by rw [ends.1]; decide)) (.map (no_direction ends.2.1 ends.2.2))
  | some descending =>
      have noOperator : operatorLevel (toks (directionWritten descending) ++ rest).head? < 1 := by
        cases descending <;> exact Nat.zero_lt_one
      rw [Key.written, toks_append, List.append_assoc]
      exact .bind (parses.whole tight noOperator) (.map (direction_reads descending))

theorem keysMeant_map (keys : List Key) : keysMeant keys = keys.map Key.meant := by
  induction keys with
  | nil => rfl
  | cons key keys ih => rw [keysMeant, ih, List.map_cons]

theorem toks_moreKeys (keys : List Key) :
    toks (moreKeysWritten keys) = keys.flatMap fun key => .symbol .comma :: toks key.written := by
  induction keys with
  | nil => rfl
  | cons key keys ih => simp [moreKeysWritten, ← ih]

theorem keys_reads (isHead : toks head = [Tok.keyword first, .keyword .by_]) (each : ∀ key ∈ keys, key.Parses)
    (late : 1 ≤ clauseRank rest.head?) (noKeyword : rest.head? ≠ some (.keyword first)) :
    Reads (fun fuel => parseKeys first (parseKey (parseExpr fuel 1)) fuel) (toks (keysWritten head keys) ++ rest)
      (keysMeant keys) rest := by
  obtain ⟨noOperator, noComma, -, noAsc, noDesc⟩ := rank_ends late
  have all : ∀ key ∈ keys, ∀ rest, KeyEnds rest →
      Reads (fun fuel => parseKey (parseExpr fuel 1)) (toks key.written ++ rest) key.meant rest :=
    fun key member rest ends => key_reads (each key member) ends
  rw [keysMeant_map]
  refine @parseKeys_reads _ _ _ (fun key => toks key.written) _ _ _ _ _ all (fun _ => ⟨rfl, by simp, by simp⟩)
    ⟨noOperator, noAsc, noDesc⟩ noComma noKeyword _ (fun none => by rw [none]; rfl) fun key others some_ => ?_
  rw [some_, keysWritten, toks_append, isHead, toks_append, toks_moreKeys]
  rfl

theorem toks_part (before part : Pieces) : toks (partWritten before part) = toks before ++ toks part := by
  unfold partWritten
  split
  · rename_i empty
    rw [List.isEmpty_iff.mp empty]
    rfl
  · split
    · rename_i empty
      rw [List.isEmpty_iff.mp empty, toks_nil, List.append_nil]
    · simp

theorem over_reads {function : Sql} {partition order : List Key} (frame : Option (FrameBound × FrameBound))
    (partitionParses : ∀ key ∈ partition, key.Parses) (orderParses : ∀ key ∈ order, key.Parses) :
    Reads (fun fuel => parseOperator fuel function)
      (.keyword .over_ :: .symbol .lparen ::
        (toks (keysWritten [keyword .partition_, space, keyword .by_, space] partition) ++
          (toks (keysWritten [keyword .order_, space, keyword .by_, space] order) ++
            (toks (frameWritten frame) ++ Tok.symbol .rparen :: rest))))
      (.windowed function (keysMeant partition) (keysMeant order) frame) rest := by
  have frameLate : 8 ≤ clauseRank (toks (frameWritten frame) ++ Tok.symbol .rparen :: rest).head? :=
    late_part (frame_open frame) (show 8 ≤ 9 by decide)
  have orderLate : 7 ≤ clauseRank (toks (keysWritten [keyword .order_, space, keyword .by_, space] order) ++
      (toks (frameWritten frame) ++ Tok.symbol .rparen :: rest)).head? :=
    late_part (keys_open rfl (Nat.le_refl 7) order) (Nat.le_trans (by decide) frameLate)
  have frameReads := @frame_reads (.symbol .rparen :: rest) frame (by simp)
  have orderReads := @keys_reads _ order .order_ [keyword .order_, space, keyword .by_, space] rfl orderParses
    (Nat.le_trans (by decide) frameLate) (@rank_ne _ _ 8 (by decide) frameLate)
  have partitionReads := @keys_reads _ partition .partition_ [keyword .partition_, space, keyword .by_, space] rfl partitionParses
    (Nat.le_trans (by decide) orderLate) (@rank_ne _ _ 7 (by decide) orderLate)
  exact .step (fun fuel => by rw [parseOperator]; rfl)
    (parens_reads (.bind partitionReads (.bind orderReads (.map frameReads))))

end Keys

section Outputs

variable {rest : List Tok} {output : Output} {list : List Output}

/-- What may follow an output column: no operator, and no name. -/
def OutputEnds (rest : List Tok) : Prop := operatorLevel rest.head? = 0 ∧ rest.head? ≠ some (.keyword .as_)

theorem output_reads (parses : output.Parses) (ends : OutputEnds rest) :
    Reads (fun fuel => parseOutput (parseExpr fuel 1)) (toks output.written ++ rest) output.meant rest := by
  obtain ⟨value, name⟩ := output
  obtain ⟨tight, parses, -⟩ := parses
  cases name with
  | none => exact .bind (parses.whole tight (by rw [ends.1]; decide)) (.map (.notThere ends.2))
  | some name =>
      have valueReads := @Sql.Parses.whole _ (.keyword .as_ :: .name name :: rest) _ parses tight Nat.zero_lt_one
      rw [Output.written, toks_append, List.append_assoc]
      exact .bind valueReads (.map (.optionally (name_reads name)))

theorem outputsMeant_map (list : List Output) : outputsMeant list = list.map Output.meant := by
  induction list with
  | nil => rfl
  | cons output list ih => rw [outputsMeant, ih, List.map_cons]

theorem toks_moreOutputs (list : List Output) :
    toks (moreOutputsWritten list) = list.flatMap fun output => .symbol .comma :: toks output.written := by
  induction list with
  | nil => rfl
  | cons output list ih => simp [moreOutputsWritten, ← ih]

theorem outputs_reads (some_ : list ≠ []) (each : ∀ output ∈ list, output.Parses) (ends : OutputEnds rest)
    (noComma : rest.head? ≠ some (.symbol .comma)) :
    Reads (fun fuel => separated (.symbol .comma) (parseOutput (parseExpr fuel 1)) fuel)
      (toks (outputsWritten list) ++ rest) (outputsMeant list) rest := by
  cases list with
  | nil => exact absurd rfl some_
  | cons output list =>
      have all : ∀ other ∈ output :: list, ∀ rest, OutputEnds rest →
          Reads (fun fuel => parseOutput (parseExpr fuel 1)) (toks other.written ++ rest) other.meant rest :=
        fun other member rest ends => output_reads (each other member) ends
      rw [outputsMeant_map, outputsWritten, toks_append, toks_moreOutputs, List.append_assoc]
      exact separated_reads (fun output : Output => toks output.written) all (fun _ => ⟨rfl, by simp⟩) ends
        noComma

/-- The select list can be read. -/
def ListParses : Option (List Output) → Prop
  | none => True
  | some list => list ≠ [] ∧ ∀ output ∈ list, output.Parses

theorem outputs_head (some_ : list ≠ []) (each : ∀ output ∈ list, output.Parses) :
    (toks (outputsWritten list) ++ rest).head? ≠ some (.keyword .distinct_) := by
  cases list with
  | nil => exact absurd rfl some_
  | cons output list =>
      obtain ⟨value, name⟩ := output
      obtain ⟨-, -, first, more, written, isFirst, -⟩ := each _ List.mem_cons_self
      have other : first ≠ .keyword .distinct_ := by
        rintro rfl
        cases isFirst
      cases name <;> simpa [outputsWritten, Output.written, written] using other

/-- DISTINCT, the list and the FROM behind it. -/
theorem list_reads {α : Type} {list : Option (List Output)} {distinct : Bool} {value : α}
    {after : Option Unit → List Output → Nat → Parser Tok α} {tokens : List Tok} (parses : ListParses list)
    (more : Reads (after (if list.isSome && distinct then some () else none) (listMeant list)) tokens value rest) :
    Reads (fun fuel => do
        let distinct ← optionally (.keyword .distinct_) (pure ())
        let list ← separated (.symbol .comma) (parseOutput (parseExpr fuel 1)) fuel
        expect (.keyword .from_)
        after distinct list fuel)
      (toks (selectListWritten distinct list) ++ Tok.keyword .from_ :: tokens) value rest := by
  cases list with
  | none =>
      have one : Reads (fun fuel => parseExpr fuel 1) (.number "1" :: .keyword .from_ :: tokens) (.number "1")
          (.keyword .from_ :: tokens) := reads_expr (number_operand "1") (infix_ends Nat.zero_lt_one)
      have output : Reads (fun fuel => parseOutput (parseExpr fuel 1)) (.number "1" :: .keyword .from_ :: tokens)
          (.mk (.number "1") none) (.keyword .from_ :: tokens) := .bind one (.map (.notThere (by simp)))
      exact .bind (.notThere (by simp [selectListWritten])) (.bind (.separated output (.nil rfl)) (.expect more))
  | some list =>
      obtain ⟨some_, each⟩ := parses
      have columns := @outputs_reads (.keyword .from_ :: tokens) list some_ each ⟨rfl, by simp⟩ (by simp)
      cases distinct with
      | false => exact .bind (.notThere (outputs_head some_ each)) (.bind columns (.expect more))
      | true => exact .bind (.optionally .pure) (.bind columns (.expect more))

end Outputs

section Tables

variable {rest : List Tok} {source : Source} {joins : List Joined} {conditions : List Sql} {first : Keyword}

/-- A table of the FROM that can be read. -/
def Source.Parses (source : Source) : Prop :=
  ∀ rest, Reads (fun fuel => parseTable (parseQuery fuel)) (toks source.written ++ rest) source.meant rest

theorem table_parses (name tableAlias : String) : (Source.table name tableAlias).Parses :=
  fun _ => .peek (.bind (name_reads name) (.expect (.map (ident_reads tableAlias))))

theorem derived_parses {query : Query} (tableAlias : String) (parses : query.Parses) :
    (Source.derived query tableAlias).Parses := by
  intro rest
  have tokens : toks (Source.derived query tableAlias).written ++ rest =
      Tok.symbol .lparen :: (toks query.written ++ Tok.symbol .rparen :: .keyword .as_ :: aliasTok tableAlias :: rest) := by
    simp [Source.written]
  rw [tokens]
  exact .peek (.bind (parens_reads (parses.reads rfl)) (.expect (.map (ident_reads tableAlias))))

/-- Conditions, each in its parentheses. -/
def AllParens (conditions : List Sql) : Prop := ∀ condition ∈ conditions, (Sql.paren condition).Parses

theorem toks_moreConditions (conditions : List Sql) :
    toks (moreConditionsWritten conditions) =
      toks (tailWritten [space, keyword Connective.and.keyword, space] (conditions.map Sql.paren)) := by
  induction conditions with
  | nil => rfl
  | cons condition conditions ih => simp [moreConditionsWritten, tailWritten, Sql.written, Connective.keyword, ih]

theorem parens_meant (conditions : List Sql) : allMeant (conditions.map Sql.paren) = allMeant conditions := by
  induction conditions with
  | nil => rfl
  | cons condition conditions ih => rw [List.map_cons, allMeant, ih, Sql.meant, allMeant]

/-- Conditions in parentheses are read as one. -/
theorem conditions_reads (parses : AllParens conditions) (late : 1 ≤ clauseRank rest.head?)
    (noKeyword : rest.head? ≠ some (.keyword first)) :
    ∃ found : Option Sql, found.toList = conjoined (allMeant conditions) ∧
      Reads (fun fuel => optionally (.keyword first) (parseExpr fuel 1))
        (toks (conditionsWritten first conditions) ++ rest) found rest := by
  cases conditions with
  | nil => exact ⟨none, rfl, .notThere noKeyword⟩
  | cons condition conditions =>
      have whole : (Sql.connect .and ((condition :: conditions).map Sql.paren)).Parses := by
        refine chain_parses (connect_pairs .and) rfl rfl rfl rfl (by simp) fun sql member => ?_
        obtain ⟨source, sourceIn, rfl⟩ := List.mem_map.mp member
        exact ⟨by simp [Sql.level, Connective.level], parses source sourceIn⟩
      have tokens : toks (conditionsWritten first (condition :: conditions)) ++ rest =
          Tok.keyword first :: (toks (Sql.connect .and ((condition :: conditions).map Sql.paren)).written ++ rest) := by
        simp [conditionsWritten, Sql.written, listWritten, toks_moreConditions]
      have meant : conjoined (allMeant (condition :: conditions)) =
          [(Sql.connect .and ((condition :: conditions).map Sql.paren)).meant] := by
        rw [Sql.meant, parens_meant]
        rfl
      have ends : operatorLevel rest.head? < 1 := by
        rw [(rank_ends late).1]
        exact Nat.zero_lt_one
      rw [tokens, meant]
      exact ⟨some _, rfl, .optionally (whole.whole (Nat.le_succ 1) ends)⟩

def Joined.Parses : Joined → Prop
  | .mk join source on => join.isSome = true ∧ source.Parses ∧ AllParens on

theorem joined_reads {joined : Joined} (parses : joined.Parses) (late : 2 ≤ clauseRank rest.head?) :
    Reads (fun fuel => parseJoined (parseExpr fuel 1) (parseQuery fuel)) (toks joined.written ++ rest) joined.meant rest ∧
      joinFollows (toks joined.written ++ rest).head? = true ∧ clauseRank (toks joined.written ++ rest).head? = 2 := by
  obtain ⟨join, source, on⟩ := joined
  obtain ⟨isJoin, sourceParses, onParses⟩ := parses
  obtain ⟨join, rfl⟩ := Option.isSome_iff_exists.mp isJoin
  obtain ⟨found, isFound, onReads⟩ := @conditions_reads rest on .on_ onParses (Nat.le_trans (by decide) late)
    (@rank_ne _ _ 2 (by decide) late)
  have sourceReads := sourceParses (toks (conditionsWritten .on_ on) ++ rest)
  rw [Joined.meant, ← isFound, Joined.written, toks_append, toks_append, List.append_assoc, List.append_assoc]
  cases join with
  | cross => exact ⟨.bind (.next (.expect .pure)) (.bind sourceReads (.map onReads)), rfl, rfl⟩
  | inner => exact ⟨.bind (.next .pure) (.bind sourceReads (.map onReads)), rfl, rfl⟩
  | left => exact ⟨.bind (.next (.expect .pure)) (.bind sourceReads (.map onReads)), rfl, rfl⟩

theorem join_rank {next : Option Tok} (follows : joinFollows next = true) : clauseRank next = 2 := by
  unfold joinFollows at follows
  split at follows
  · rfl
  · rfl
  · rfl
  · cases follows

theorem joins_each (each : ∀ joined ∈ joins, joined.Parses) (late : 3 ≤ clauseRank rest.head?) :
    Each joinFollows (fun fuel => parseJoined (parseExpr fuel 1) (parseQuery fuel)) (toks (sourceWritten joins) ++ rest)
        (sourceMeant joins) rest ∧ 2 ≤ clauseRank (toks (sourceWritten joins) ++ rest).head? := by
  induction joins with
  | nil =>
      have ends : joinFollows rest.head? = false := by
        by_contra follows
        rw [join_rank (by simpa using follows)] at late
        exact absurd late (by decide)
      exact ⟨.nil ends, Nat.le_trans (by decide) late⟩
  | cons joined joins ih =>
      obtain ⟨here, others⟩ := List.forall_mem_cons.mp each
      obtain ⟨later, lateLater⟩ := ih others
      obtain ⟨reads, follows, rank⟩ := joined_reads here lateLater
      rw [sourceWritten, toks_append, List.append_assoc]
      exact ⟨.cons follows reads later, Nat.le_of_eq rank.symm⟩

end Tables

/-- The FROM: a first table, and others joined to it. -/
def SourceParses : List Joined → Prop
  | [] => False
  | .mk join source on :: joins => (join = none ∧ on = [] ∧ source.Parses) ∧ ∀ joined ∈ joins, joined.Parses

def HavingParses : Option Sql → Prop
  | none => True
  | some condition => 1 ≤ condition.level ∧ condition.Parses

section Selects

variable {rest : List Tok} {distinct : Bool} {list : Option (List Output)} {source : List Joined} {filters : List Sql}
  {groupBy : List Key} {having : Option Sql}

theorem having_reads (parses : HavingParses having) (late : 6 ≤ clauseRank rest.head?) :
    Reads (fun fuel => optionally (.keyword .having_) (parseExpr fuel 1)) (toks (havingWritten having) ++ rest)
      (optionMeant having) rest := by
  cases having with
  | none => exact .notThere (@rank_ne _ _ 6 (by decide) late)
  | some condition =>
      have ends : operatorLevel rest.head? < 1 := by
        rw [(rank_ends (Nat.le_trans (by decide) late)).1]
        exact Nat.zero_lt_one
      exact .optionally (Sql.Parses.whole parses.2 parses.1 ends)

/-- A SELECT up to its HAVING, before what comes later. -/
theorem select_reads (listParses : ListParses list) (sourceParses : SourceParses source) (filtersParse : AllParens filters)
    (groupParses : ∀ key ∈ groupBy, key.Parses) (havingParses : HavingParses having) (late : 6 ≤ clauseRank rest.head?) :
    Reads (fun fuel => parseSelect (parseExpr fuel 1) (parseQuery fuel) fuel)
      (.keyword .select_ :: (toks (selectListWritten distinct list) ++ Tok.keyword .from_ :: (toks (sourceWritten source) ++
        (toks (conditionsWritten .where_ filters) ++
          (toks (keysWritten [space, keyword .group_, space, keyword .by_, space] groupBy) ++
            (toks (havingWritten having) ++ rest))))))
      (.select (list.isSome && distinct) (some (listMeant list)) (sourceMeant source) (conjoined (allMeant filters))
        (keysMeant groupBy) (optionMeant having) [] none) rest := by
  cases source with
  | nil => exact sourceParses.elim
  | cons joined joins =>
      obtain ⟨join, table, on⟩ := joined
      obtain ⟨⟨rfl, rfl, tableParses⟩, joinsParse⟩ := sourceParses
      have havingReads := having_reads havingParses late
      have havingLate : 5 ≤ clauseRank (toks (havingWritten having) ++ rest).head? :=
        late_part (having_open having) (Nat.le_trans (by decide) late)
      have groupReads := @keys_reads _ groupBy .group_ [space, keyword .group_, space, keyword .by_, space] rfl groupParses
        (Nat.le_trans (by decide) havingLate) (@rank_ne _ _ 5 (by decide) havingLate)
      have groupLate := late_part (@keys_open 4 .group_ [space, keyword .group_, space, keyword .by_, space] rfl
        (Nat.le_refl 4) groupBy) (Nat.le_trans (by decide) havingLate)
      obtain ⟨found, isFound, filterReads⟩ := @conditions_reads _ filters .where_ filtersParse
        (Nat.le_trans (by decide) groupLate) (@rank_ne _ _ 4 (by decide) groupLate)
      have filterLate := late_part (@conditions_open 3 .where_ (Nat.le_refl 3) filters) (Nat.le_trans (by decide) groupLate)
      have joinsRead := (joins_each joinsParse filterLate).1.reads
      have tableReads := tableParses (toks (sourceWritten joins) ++ (toks (conditionsWritten .where_ filters) ++
        (toks (keysWritten [space, keyword .group_, space, keyword .by_, space] groupBy) ++
          (toks (havingWritten having) ++ rest))))
      have written : toks (sourceWritten (.mk none table [] :: joins)) = toks table.written ++ toks (sourceWritten joins) := by
        simp [sourceWritten, Joined.written, joinWritten, conditionsWritten]
      have isDistinct : (if list.isSome && distinct then some () else none).isSome = (list.isSome && distinct) := by
        cases list.isSome && distinct <;> rfl
      rw [written, List.append_assoc, ← isFound, ← isDistinct]
      exact .expect (list_reads listParses (.bind tableReads (.bind joinsRead (.bind filterReads (.bind groupReads
        (.map havingReads))))))

end Selects

/-- A SELECT that is a leg, before the legs and the order behind it. -/
def Query.LegParses (query : Query) : Prop :=
  (∃ more, toks query.written = Tok.keyword .select_ :: more) ∧
    ∀ {rest : List Tok}, 6 ≤ clauseRank rest.head? →
      Reads (fun fuel => parseSelect (parseExpr fuel 1) (parseQuery fuel) fuel) (toks query.written ++ rest) query.meant rest

def Leg.Parses : Leg → Prop
  | .mk _ _ query => query.LegParses

section Legs

variable {rest : List Tok} {leg : Leg} {legs : List Leg}

theorem leg_reads (parses : leg.Parses) (late : 6 ≤ clauseRank rest.head?) :
    Reads (fun fuel => parseLeg (parseSelect (parseExpr fuel 1) (parseQuery fuel) fuel)) (toks leg.written ++ rest)
        leg.meant rest ∧ legFollows (toks leg.written ++ rest).head? = true ∧
      clauseRank (toks leg.written ++ rest).head? = 6 := by
  obtain ⟨op, all, query⟩ := leg
  obtain ⟨⟨more, starts⟩, reads⟩ := parses
  have select := reads late
  have opReads (tokens : List Tok) : Reads (fun _ => parseSetOp) (.keyword op.keyword :: tokens) op tokens := by
    cases op <;> exact .always rfl
  have tokens : toks (Leg.mk op all query).written ++ rest = Tok.keyword op.keyword ::
      (toks (if all then [keyword .all_, space] else []) ++ (toks query.written ++ rest)) := by
    simp [Leg.written]
  have noAll : (toks query.written ++ rest).head? ≠ some (.keyword .all_) := by simp [starts]
  rw [tokens]
  refine ⟨?_, by cases op <;> rfl, by cases op <;> rfl⟩
  cases all with
  | true => exact .bind (opReads _) (.bind (.optionally .pure) (.map select))
  | false => exact .bind (opReads _) (.bind (.notThere noAll) (.map select))

theorem leg_rank {next : Option Tok} (follows : legFollows next = true) : clauseRank next = 6 := by
  unfold legFollows at follows
  split at follows
  · rfl
  · rfl
  · rfl
  · cases follows

theorem no_leg (late : 7 ≤ clauseRank rest.head?) : legFollows rest.head? = false := by
  by_contra follows
  rw [leg_rank (by simpa using follows)] at late
  exact absurd late (by decide)

theorem legs_each (each : ∀ leg ∈ legs, leg.Parses) (late : 7 ≤ clauseRank rest.head?) :
    Each legFollows (fun fuel => parseLeg (parseSelect (parseExpr fuel 1) (parseQuery fuel) fuel))
        (toks (legsWritten legs) ++ rest) (legsMeant legs) rest ∧ 6 ≤ clauseRank (toks (legsWritten legs) ++ rest).head? := by
  induction legs with
  | nil => exact ⟨.nil (no_leg late), Nat.le_trans (by decide) late⟩
  | cons leg legs ih =>
      obtain ⟨here, others⟩ := List.forall_mem_cons.mp each
      obtain ⟨later, lateLater⟩ := ih others
      obtain ⟨reads, follows, rank⟩ := leg_reads here lateLater
      rw [legsWritten, toks_append, List.append_assoc]
      exact ⟨.cons follows reads later, Nat.le_of_eq rank.symm⟩

theorem toks_names (key : String × Bool) (keys : List (String × Bool)) :
    toks (namesWritten (key :: keys)) = Tok.keyword .order_ :: .keyword .by_ ::
      ((.name key.1 :: toks (directionWritten key.2)) ++
        keys.flatMap fun key => .symbol .comma :: .name key.1 :: toks (directionWritten key.2)) := by
  have more : toks (moreWritten (keys.map fun key => some (.name key.1) :: directionWritten key.2)) =
      keys.flatMap fun key => .symbol .comma :: .name key.1 :: toks (directionWritten key.2) := by
    induction keys with
    | nil => rfl
    | cons key keys ih => simpa [moreWritten] using ih
  simp [namesWritten, commasWritten, more]

theorem names_reads (keys : List (String × Bool)) (late : 8 ≤ clauseRank rest.head?) :
    Reads (fun fuel => parseKeys .order_ parseNameKey fuel) (toks (namesWritten keys) ++ rest) keys rest := by
  obtain ⟨-, noComma, -, -, -⟩ := rank_ends (Nat.le_trans (by decide) late)
  have each : ∀ key ∈ keys, ∀ rest, True → Reads (fun _ => parseNameKey)
      ((.name key.1 :: toks (directionWritten key.2)) ++ rest) (id key) rest :=
    fun key _ rest _ => .bind (name_reads key.1) (.map (direction_reads key.2))
  have all := @parseKeys_reads _ _ _ (fun key => .name key.1 :: toks (directionWritten key.2)) id rest .order_ _ keys each
    (fun _ => trivial) trivial noComma (@rank_ne _ _ 8 (by decide) late) (toks (namesWritten keys))
    (fun none => by rw [none]; rfl) (fun key others some_ => by rw [some_]; exact toks_names key others)
  rwa [List.map_id] at all

theorem names_open (keys : List (String × Bool)) : Opens 7 (toks (namesWritten keys)) := by
  cases keys with
  | nil => exact .inl rfl
  | cons key keys => exact .inr ⟨.keyword .order_, _, toks_names key keys, Nat.le_refl 7⟩

end Legs

section Queries

variable {distinct : Bool} {list : Option (List Output)} {source : List Joined} {filters : List Sql}
  {groupBy orderBy : List Key} {having : Option Sql} {rows : Option Limit} {first : Query} {legs : List Leg}

theorem toks_select : toks (Query.select distinct list source filters groupBy having orderBy rows).written =
    Tok.keyword .select_ :: (toks (selectListWritten distinct list) ++ Tok.keyword .from_ :: (toks (sourceWritten source) ++
      (toks (conditionsWritten .where_ filters) ++
        (toks (keysWritten [space, keyword .group_, space, keyword .by_, space] groupBy) ++
          (toks (havingWritten having) ++ (toks (keysWritten [space, keyword .order_, space, keyword .by_, space] orderBy) ++
            toks (limitWritten rows))))))) := by
  simp [Query.written]

theorem select_parses (listParses : ListParses list) (sourceParses : SourceParses source)
    (filtersParse : AllParens filters) (groupParses : ∀ key ∈ groupBy, key.Parses) (havingParses : HavingParses having)
    (orderParses : ∀ key ∈ orderBy, key.Parses) :
    (Query.select distinct list source filters groupBy having orderBy rows).Parses := by
  refine ⟨⟨_, toks_select⟩, fun {rest} ends => ?_⟩
  have rowsLate : 8 ≤ clauseRank (toks (limitWritten rows) ++ rest).head? :=
    late_part (limit_open rows) (by rw [ends]; decide)
  have orderReads := @keys_reads _ orderBy .order_ [space, keyword .order_, space, keyword .by_, space] rfl orderParses
    (Nat.le_trans (by decide) rowsLate) (@rank_ne _ _ 8 (by decide) rowsLate)
  have orderLate := late_part (@keys_open 7 .order_ [space, keyword .order_, space, keyword .by_, space] rfl
    (Nat.le_refl 7) orderBy) (Nat.le_trans (by decide) rowsLate)
  have core := @select_reads _ distinct _ _ _ _ _ listParses sourceParses filtersParse groupParses havingParses
    (Nat.le_trans (by decide) orderLate)
  have tokens := congrArg (· ++ rest) (@toks_select distinct list source filters groupBy orderBy having rows)
  simp only [List.cons_append, List.append_assoc] at tokens
  rw [tokens]
  exact .call (fun _ => by rw [parseQuery]) (.bind core (.bind (Each.reads (.nil (no_leg orderLate)))
    (.ifTrue rfl (.bind orderReads (.map (limit_reads rows ends))))))

/-- A leg is a SELECT without an order and a limit of its own. -/
theorem select_legParses (listParses : ListParses list) (sourceParses : SourceParses source)
    (filtersParse : AllParens filters) (groupParses : ∀ key ∈ groupBy, key.Parses) (havingParses : HavingParses having)
    (isLeg : (Query.select distinct list source filters groupBy having orderBy rows).isLeg = true) :
    (Query.select distinct list source filters groupBy having orderBy rows).LegParses := by
  obtain ⟨noOrder, noRows⟩ : orderBy = [] ∧ rows = none := by simpa [Query.isLeg] using isLeg
  subst noOrder noRows
  refine ⟨⟨_, toks_select⟩, fun {rest} late => ?_⟩
  have core := @select_reads _ distinct _ _ _ _ _ listParses sourceParses filtersParse groupParses havingParses late
  have tokens := congrArg (· ++ rest) (@toks_select distinct list source filters groupBy [] having none)
  simp only [List.cons_append, List.append_assoc] at tokens
  rw [tokens]
  exact core

theorem legs_parses (firstParses : first.LegParses) (some_ : legs ≠ []) (each : ∀ leg ∈ legs, leg.Parses)
    (names : List (String × Bool)) (rows : Option Limit) : (Query.legs first legs names rows).Parses := by
  obtain ⟨⟨more, starts⟩, firstReads⟩ := firstParses
  have written : toks (Query.legs first legs names rows).written = toks first.written ++
      (toks (legsWritten legs) ++ (toks (namesWritten names) ++ toks (limitWritten rows))) := by
    simp [Query.written]
  refine ⟨⟨_, by rw [written, starts]; rfl⟩, fun {rest} ends => ?_⟩
  have rowsLate : 8 ≤ clauseRank (toks (limitWritten rows) ++ rest).head? :=
    late_part (limit_open rows) (by rw [ends]; decide)
  have namesLate := late_part (names_open names) (Nat.le_trans (by decide) rowsLate)
  obtain ⟨legsRead, legsLate⟩ := legs_each each namesLate
  have someMeant : ¬ (legsMeant legs).isEmpty = true := by
    cases legs with
    | nil => exact absurd rfl some_
    | cons leg legs => exact Bool.false_ne_true
  rw [written, List.append_assoc, List.append_assoc, List.append_assoc]
  exact .call (fun _ => by rw [parseQuery]) (.bind (firstReads legsLate) (.bind legsRead.reads
    (.ifFalse someMeant (.bind (names_reads names rowsLate) (.map (limit_reads rows ends))))))

end Queries

end StoolapMariadb.SqlGen
