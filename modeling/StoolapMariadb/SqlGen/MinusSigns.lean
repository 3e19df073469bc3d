import StoolapMariadb.SqlGen.Pieces

namespace StoolapMariadb.SqlGen

/-! What stands behind the minus signs of written SQL. Only there do two of
them meet, as `--`. -/

mutual

/-- The operands that a minus sign is written before. -/
def Sql.negated : Sql → List Sql
  | .neg operand => operand :: operand.negated
  | .column _ _ | .null | .integer _ | .number _ | .text _ | .countAll => []
  | .paren operand | .isNull _ operand | .not operand | .cast operand _ | .aggregate _ _ operand => operand.negated
  | .compare _ left right | .arithmetic _ left right | .like _ left right => left.negated ++ right.negated
  | .concat operands | .connect _ operands | .call _ operands | .windowCall _ operands => allNegated operands
  | .between _ value low high => value.negated ++ (low.negated ++ high.negated)
  | .inList _ value list => value.negated ++ allNegated list
  | .caseSearched arms => arms.negated
  | .caseSimple subject arms => subject.negated ++ arms.negated
  | .windowed function partition order _ => function.negated ++ (keysNegated partition ++ keysNegated order)
  | .subquery query | .existsQuery query => query.negated
  | .inQuery value query => value.negated ++ query.negated

def allNegated : List Sql → List Sql
  | [] => []
  | sql :: sqls => sql.negated ++ allNegated sqls

def optionNegated : Option Sql → List Sql
  | none => []
  | some sql => sql.negated

def Arms.negated : Arms → List Sql
  | .done => []
  | .otherwise value => value.negated
  | .when test value rest => test.negated ++ (value.negated ++ rest.negated)

def Key.negated : Key → List Sql
  | .mk value _ => value.negated

def keysNegated : List Key → List Sql
  | [] => []
  | key :: keys => key.negated ++ keysNegated keys

def Output.negated : Output → List Sql
  | .mk value _ => value.negated

def outputsNegated : List Output → List Sql
  | [] => []
  | output :: outputs => output.negated ++ outputsNegated outputs

def listNegated : Option (List Output) → List Sql
  | none => []
  | some list => outputsNegated list

def Query.negated : Query → List Sql
  | .select _ list source filters groupBy having orderBy _ =>
      listNegated list ++ (sourceNegated source ++ (allNegated filters ++
        (keysNegated groupBy ++ (optionNegated having ++ keysNegated orderBy))))
  | .legs first rest _ _ => first.negated ++ legsNegated rest

def Leg.negated : Leg → List Sql
  | .mk _ _ query => query.negated

def legsNegated : List Leg → List Sql
  | [] => []
  | leg :: legs => leg.negated ++ legsNegated legs

def Source.negated : Source → List Sql
  | .table _ _ => []
  | .derived query _ => query.negated

def Joined.negated : Joined → List Sql
  | .mk _ source on => source.negated ++ allNegated on

def sourceNegated : List Joined → List Sql
  | [] => []
  | joined :: rest => joined.negated ++ sourceNegated rest

end

def Statement.negated : Statement → List Sql
  | .update _ sets filter => sets.flatMap (fun set => set.2.negated) ++ optionNegated filter
  | .delete _ filter => optionNegated filter

def ModifyCount.negated (count : ModifyCount) : List Sql := optionNegated count.filter

section Shaped

variable {may : Sql → Prop}

mutual

/-- The shape asks `may` of what is behind the minus signs, and of nothing else. -/
theorem Sql.shaped_iff : (sql : Sql) → (sql.Shaped may ↔ sql.Shaped Anything ∧ ∀ operand ∈ sql.negated, may operand)
  | .column _ _ | .null | .integer _ | .number _ | .text _ | .countAll => by simp [Sql.Shaped, Sql.negated]
  | .paren operand => by simp [Sql.Shaped, Sql.negated, operand.shaped_iff]
  | .isNull _ operand | .not operand | .cast operand _ | .aggregate _ _ operand => by
      simp [Sql.Shaped, Sql.negated, operand.shaped_iff, and_assoc]
  | .neg operand => by
      simp only [Sql.Shaped, Sql.negated, operand.shaped_iff, List.forall_mem_cons, Anything]
      tauto
  | .compare _ left right | .arithmetic _ left right | .like _ left right => by
      simp only [Sql.Shaped, Sql.negated, left.shaped_iff, right.shaped_iff, List.forall_mem_append]
      tauto
  | .concat operands | .connect _ operands => by
      simp only [Sql.Shaped, Sql.negated, allShaped_iff operands, and_assoc]
  | .call _ operands | .windowCall _ operands => allShaped_iff operands 1
  | .between _ value low high => by
      simp only [Sql.Shaped, Sql.negated, value.shaped_iff, low.shaped_iff, high.shaped_iff, List.forall_mem_append]
      tauto
  | .inList _ value list => by
      simp only [Sql.Shaped, Sql.negated, value.shaped_iff, allShaped_iff list, List.forall_mem_append]
      tauto
  | .caseSearched arms => arms.shaped_iff
  | .caseSimple subject arms => by
      simp only [Sql.Shaped, Sql.negated, subject.shaped_iff, arms.shaped_iff, List.forall_mem_append]
      tauto
  | .windowed function partition order _ => by
      simp only [Sql.Shaped, Sql.negated, function.shaped_iff, keysShaped_iff partition, keysShaped_iff order,
        List.forall_mem_append]
      tauto
  | .subquery query | .existsQuery query => query.shaped_iff
  | .inQuery value query => by
      simp only [Sql.Shaped, Sql.negated, value.shaped_iff, query.shaped_iff, List.forall_mem_append]
      tauto

theorem allShaped_iff : (sqls : List Sql) → (level : Nat) →
    (AllShaped may level sqls ↔ AllShaped Anything level sqls ∧ ∀ operand ∈ allNegated sqls, may operand)
  | [], _ => by simp [AllShaped, allNegated]
  | sql :: sqls, level => by
      simp only [AllShaped, allNegated, sql.shaped_iff, allShaped_iff sqls level, List.forall_mem_append]
      tauto

theorem optionShaped_iff : (sql : Option Sql) →
    (OptionShaped may sql ↔ OptionShaped Anything sql ∧ ∀ operand ∈ optionNegated sql, may operand)
  | none => by simp [OptionShaped, optionNegated]
  | some sql => by simp only [OptionShaped, optionNegated, sql.shaped_iff, and_assoc]

theorem Arms.shaped_iff : (arms : Arms) →
    (arms.Shaped may ↔ arms.Shaped Anything ∧ ∀ operand ∈ arms.negated, may operand)
  | .done => by simp [Arms.Shaped, Arms.negated]
  | .otherwise value => by simp only [Arms.Shaped, Arms.negated, value.shaped_iff, and_assoc]
  | .when test value rest => by
      simp only [Arms.Shaped, Arms.negated, test.shaped_iff, value.shaped_iff, rest.shaped_iff, List.forall_mem_append]
      tauto

theorem Key.shaped_iff : (key : Key) → (key.Shaped may ↔ key.Shaped Anything ∧ ∀ operand ∈ key.negated, may operand)
  | .mk value _ => by simp only [Key.Shaped, Key.negated, value.shaped_iff, and_assoc]

theorem keysShaped_iff : (keys : List Key) →
    (KeysShaped may keys ↔ KeysShaped Anything keys ∧ ∀ operand ∈ keysNegated keys, may operand)
  | [] => by simp [KeysShaped, keysNegated]
  | key :: keys => by
      simp only [KeysShaped, keysNegated, key.shaped_iff, keysShaped_iff keys, List.forall_mem_append]
      tauto

theorem Output.shaped_iff : (output : Output) →
    (output.Shaped may ↔ output.Shaped Anything ∧ ∀ operand ∈ output.negated, may operand)
  | .mk value _ => by simp only [Output.Shaped, Output.negated, value.shaped_iff, and_assoc]

theorem outputsShaped_iff : (outputs : List Output) →
    (OutputsShaped may outputs ↔ OutputsShaped Anything outputs ∧ ∀ operand ∈ outputsNegated outputs, may operand)
  | [] => by simp [OutputsShaped, outputsNegated]
  | output :: outputs => by
      simp only [OutputsShaped, outputsNegated, output.shaped_iff, outputsShaped_iff outputs, List.forall_mem_append]
      tauto

theorem listShaped_iff : (list : Option (List Output)) →
    (ListShaped may list ↔ ListShaped Anything list ∧ ∀ operand ∈ listNegated list, may operand)
  | none => by simp [ListShaped, listNegated]
  | some list => by simp only [ListShaped, listNegated, outputsShaped_iff list, and_assoc]

theorem Query.shaped_iff : (query : Query) →
    (query.Shaped may ↔ query.Shaped Anything ∧ ∀ operand ∈ query.negated, may operand)
  | .select _ list source filters groupBy having orderBy _ => by
      simp only [Query.Shaped, Query.negated, listShaped_iff list, sourceShaped_iff source, allShaped_iff filters,
        keysShaped_iff groupBy, optionShaped_iff having, keysShaped_iff orderBy, List.forall_mem_append]
      tauto
  | .legs first rest _ _ => by
      simp only [Query.Shaped, Query.negated, first.shaped_iff, legsShaped_iff rest, List.forall_mem_append]
      tauto

theorem Leg.shaped_iff : (leg : Leg) → (leg.Shaped may ↔ leg.Shaped Anything ∧ ∀ operand ∈ leg.negated, may operand)
  | .mk _ _ query => by simp only [Leg.Shaped, Leg.negated, query.shaped_iff, and_assoc]

theorem legsShaped_iff : (legs : List Leg) →
    (LegsShaped may legs ↔ LegsShaped Anything legs ∧ ∀ operand ∈ legsNegated legs, may operand)
  | [] => by simp [LegsShaped, legsNegated]
  | leg :: legs => by
      simp only [LegsShaped, legsNegated, leg.shaped_iff, legsShaped_iff legs, List.forall_mem_append]
      tauto

theorem Source.shaped_iff : (source : Source) →
    (source.Shaped may ↔ source.Shaped Anything ∧ ∀ operand ∈ source.negated, may operand)
  | .table _ _ => by simp [Source.Shaped, Source.negated]
  | .derived query _ => by
      simp only [Source.Shaped, Source.negated, query.shaped_iff]
      tauto

theorem Joined.shaped_iff : (joined : Joined) →
    (joined.Shaped may ↔ joined.Shaped Anything ∧ ∀ operand ∈ joined.negated, may operand)
  | .mk _ source on => by
      simp only [Joined.Shaped, Joined.negated, source.shaped_iff, allShaped_iff on, List.forall_mem_append]
      tauto

theorem joinsShaped_iff : (joins : List Joined) →
    (JoinsShaped may joins ↔ JoinsShaped Anything joins ∧ ∀ operand ∈ sourceNegated joins, may operand)
  | [] => by simp [JoinsShaped, sourceNegated]
  | joined :: rest => by
      simp only [JoinsShaped, sourceNegated, joined.shaped_iff, joinsShaped_iff rest, List.forall_mem_append]
      tauto

theorem sourceShaped_iff : (source : List Joined) →
    (SourceShaped may source ↔ SourceShaped Anything source ∧ ∀ operand ∈ sourceNegated source, may operand)
  | [] => by simp [SourceShaped]
  | .mk join source on :: rest => by
      simp only [SourceShaped, sourceNegated, Joined.negated, source.shaped_iff, joinsShaped_iff rest,
        List.forall_mem_append]
      constructor
      · rintro ⟨⟨rfl, rfl, shaped, operands⟩, restShaped, restOperands⟩
        exact ⟨⟨⟨rfl, rfl, shaped⟩, restShaped⟩, ⟨operands, by simp [allNegated]⟩, restOperands⟩
      · rintro ⟨⟨⟨rfl, rfl, shaped⟩, restShaped⟩, ⟨operands, -⟩, restOperands⟩
        exact ⟨⟨rfl, rfl, shaped, operands⟩, restShaped, restOperands⟩

end

theorem setsShaped_iff (sets : List (String × Sql)) :
    SetsShaped may sets ↔
      SetsShaped Anything sets ∧ ∀ operand ∈ sets.flatMap (fun set => set.2.negated), may operand := by
  induction sets with
  | nil => simp [SetsShaped]
  | cons set sets ih =>
      unfold SetsShaped at ih ⊢
      rw [List.forall_mem_cons, List.forall_mem_cons, List.flatMap_cons, List.forall_mem_append, ih,
        @Sql.shaped_iff may]
      tauto

theorem Statement.shaped_iff (statement : Statement) :
    statement.Shaped may ↔ statement.Shaped Anything ∧ ∀ operand ∈ statement.negated, may operand := by
  cases statement with
  | update table sets filter =>
      simp only [Statement.Shaped, Statement.negated, List.forall_mem_append]
      rw [@setsShaped_iff may, @optionShaped_iff may]
      tauto
  | delete table filter =>
      simp only [Statement.Shaped, Statement.negated]
      rw [@optionShaped_iff may, and_assoc]

theorem ModifyCount.shaped_iff (count : ModifyCount) :
    count.Shaped may ↔ count.Shaped Anything ∧ ∀ operand ∈ count.negated, may operand := by
  unfold ModifyCount.Shaped ModifyCount.negated
  rw [@optionShaped_iff may, and_assoc]

end Shaped

section Clash

theorem Sql.negative_level {sql : Sql} (negative : sql.negative = true) : sql.level = 7 := by
  cases sql with
  | integer value => exact if_pos negative
  | number digits => exact if_pos negative
  | _ => cases negative

/-- What a NEG_FUNC writes its minus sign before: of operands that begin with
one of their own, only numbers. -/
def Negatable (operand : Sql) : Prop := 7 ≤ operand.level ∧ (operand.level = 7 → operand.negative = true)

theorem Negatable.unsigned_iff {operand : Sql} (negatable : Negatable operand) :
    Unsigned operand ↔ operand.negative = false := by
  obtain ⟨bound, minus⟩ := negatable
  unfold Unsigned
  constructor
  · intro above
    refine Bool.eq_false_iff.mpr fun negative => ?_
    have level := Sql.negative_level negative
    omega
  · intro plain
    have other : operand.level ≠ 7 := fun level => by simp [minus level] at plain
    omega

variable {operands : List Sql} {shape shapeUnsigned shapeNegatable : Prop}

/-- Of a shape whose minus signs stand before what they may. -/
theorem unsigned_iff_plain (unsigned : shapeUnsigned ↔ shape ∧ ∀ operand ∈ operands, Unsigned operand)
    (negatable : shapeNegatable ↔ shape ∧ ∀ operand ∈ operands, Negatable operand) (shaped : shapeNegatable) :
    shapeUnsigned ↔ ∀ operand ∈ operands, operand.negative = false := by
  obtain ⟨shaped, each⟩ := negatable.mp shaped
  rw [unsigned, and_iff_right shaped]
  exact forall₂_congr fun operand member => (each operand member).unsigned_iff

theorem Query.unsigned_iff {query : Query} (shaped : query.Shaped Negatable) :
    query.Shaped Unsigned ↔ ∀ operand ∈ query.negated, operand.negative = false :=
  unsigned_iff_plain query.shaped_iff query.shaped_iff shaped

theorem Statement.unsigned_iff {statement : Statement} (shaped : statement.Shaped Negatable) :
    statement.Shaped Unsigned ↔ ∀ operand ∈ statement.negated, operand.negative = false :=
  unsigned_iff_plain statement.shaped_iff statement.shaped_iff shaped

theorem ModifyCount.unsigned_iff {count : ModifyCount} (shaped : count.Shaped Negatable) :
    count.Shaped Unsigned ↔ ∀ operand ∈ count.negated, operand.negative = false :=
  unsigned_iff_plain count.shaped_iff count.shaped_iff shaped

end Clash

end StoolapMariadb.SqlGen
