import StoolapMariadb.KeyReadRows

namespace StoolapMariadb.KeyRead

open StoolapMariadb.Types Index Record Read Key

/-! An exact lookup: the conditions take every row MariaDB finds equal, and the
filter runs whenever they take more. -/

theorem trimSpaces_cons (byte : UInt8) (rest : List UInt8) :
    trimSpaces (byte :: rest) = if trimSpaces rest = [] ∧ byte = 0x20 then [] else byte :: trimSpaces rest := by
  simp only [trimSpaces, List.rdropWhile, List.reverse_cons, List.dropWhile_append, List.isEmpty_iff,
    List.reverse_eq_nil_iff]
  by_cases blank : rest.reverse.dropWhile (fun byte => decide (byte = 0x20)) = []
  · by_cases space : byte = 0x20 <;> simp [blank, space]
  · simp [blank]

theorem trimSpaces_spaces (text : List UInt8) (count : Nat) :
    trimSpaces (text ++ List.replicate count 0x20) = trimSpaces text := by
  induction count with
  | zero => rw [List.replicate_zero, List.append_nil]
  | succ count ih =>
      rw [List.replicate_succ', ← List.append_assoc, trimSpaces, List.rdropWhile_concat_pos _ _ _ (by decide)]
      exact ih

theorem trimSpaces_trimSpaces (text : List UInt8) : trimSpaces (trimSpaces text) = trimSpaces text :=
  List.rdropWhile_idempotent _ _

/-- A text is what is left without its trailing spaces, and these. -/
theorem trimSpaces_append (text : List UInt8) : ∃ count, text = trimSpaces text ++ List.replicate count 0x20 := by
  induction text with
  | nil => exact ⟨0, rfl⟩
  | cons byte rest ih =>
      obtain ⟨count, same⟩ := ih
      rw [trimSpaces_cons]
      by_cases blank : trimSpaces rest = [] ∧ byte = 0x20
      · rw [if_pos blank]
        rw [blank.1, List.nil_append] at same
        exact ⟨count + 1, by rw [same, blank.2, List.nil_append, List.replicate_succ]⟩
      · rw [if_neg blank]
        exact ⟨count, by rw [List.cons_append, ← same]⟩

theorem compareSpaces_eq_eq (text : List UInt8) : compareSpaces text = .eq ↔ trimSpaces text = [] := by
  induction text with
  | nil => simp [compareSpaces, trimSpaces]
  | cons byte rest ih =>
      rw [compareSpaces, Ordering.then_eq_eq, ih, trimSpaces_cons, Std.compare_eq_iff_eq]
      by_cases blank : trimSpaces rest = [] ∧ byte = 0x20
      · simp [blank]
      · rw [if_neg blank]
        simp only [reduceCtorEq, iff_false, not_and]
        exact fun space all => blank ⟨all, space.symm⟩

/-- PAD SPACE equality is that of the texts without their trailing spaces. -/
theorem comparePadded_eq_eq (left right : List UInt8) :
    comparePadded left right = .eq ↔ trimSpaces left = trimSpaces right := by
  induction left generalizing right with
  | nil =>
      rw [comparePadded, compareSpaces_eq_eq]
      exact eq_comm
  | cons byte rest ih =>
      cases right with
      | nil =>
          have swapped : comparePadded (byte :: rest) [] = .eq ↔ compareSpaces (byte :: rest) = .eq := by
            rw [comparePadded, Ordering.swap_eq_eq]
          rw [swapped, compareSpaces_eq_eq]
          rfl
      | cons other others =>
          rw [comparePadded, Ordering.then_eq_eq, ih, Std.compare_eq_iff_eq, trimSpaces_cons, trimSpaces_cons]
          constructor
          · rintro ⟨rfl, same⟩
            rw [same]
          · intro same
            by_cases left : trimSpaces rest = [] ∧ byte = 0x20
            · by_cases right : trimSpaces others = [] ∧ other = 0x20
              · exact ⟨left.2.trans right.2.symm, left.1.trans right.1.symm⟩
              · rw [if_pos left, if_neg right] at same
                cases same
            · by_cases right : trimSpaces others = [] ∧ other = 0x20
              · rw [if_neg left, if_pos right] at same
                cases same
              · rw [if_neg left, if_neg right] at same
                exact List.cons.inj same

theorem charCount_spaces (text : List UInt8) (count : Nat) :
    charCount (text ++ List.replicate count 0x20) = charCount text + count := by
  rw [charCount, charCount, List.countP_append, List.countP_replicate, if_pos (by decide)]

theorem compareBytes_spaces (text : List UInt8) {fewer more : Nat} (le : fewer ≤ more) :
    compareBytes (text ++ List.replicate fewer 0x20) (text ++ List.replicate more 0x20) ≠ .gt := by
  obtain ⟨extra, rfl⟩ := Nat.exists_eq_add_of_le le
  rw [List.replicate_add, ← List.append_assoc]
  cases extra with
  | zero =>
      have same : compareBytes (text ++ List.replicate fewer 0x20)
          (text ++ List.replicate fewer 0x20 ++ List.replicate 0 0x20) = .eq := by
        rw [compareBytes_eq_eq, List.replicate_zero, List.append_nil]
      rw [same]
      decide
  | succ extra =>
      rw [compareBytes_append (by simp)]
      decide

section Pads

variable [Stoolap] {schema : Schema} {tableName : String}

/-- A text's pads: how many spaces it may still hold. -/
def padsOf (f : StoolapField) (text : List UInt8) : Nat := f.maxChars.toNat - charCount (trimSpaces text)

def padded (text : List UInt8) (count : Nat) : List UInt8 := trimSpaces text ++ List.replicate count 0x20

/-- The texts a padded part's candidates are. -/
def PadTakes (f : StoolapField) (text stored : List UInt8) : Prop :=
  if padsOf f text ≥ padSpaceLookups then
    compareBytes stored (trimSpaces text) ≠ .lt ∧ compareBytes stored (padded text (padsOf f text)) ≠ .gt
  else ∃ count ≤ padsOf f text, stored = padded text count

/-- Stored texts are the column's, which a bound parameter's cast leaves. -/
def KeepsTexts (schema : Schema) (f : StoolapField) : Prop :=
  ∀ column, schema.columns[f.columnIndex]? = some column →
    ∀ text, Stoolap.coerce column.dataType (some (.text text)) = some (.text text)

theorem compared_text [LawfulStoolap] (tableName : String) {f : StoolapField} (inSchema : InSchema schema f) (keeps : KeepsTexts schema f)
    (op : KeyOp) (text : List UInt8) :
    ∃ expr, Standalone schema tableName [cond f (condOp op) (some (.text text))] [expr] ∧
      ∀ row : Row, (∀ stored, row.value f.columnIndex = some (.text stored) →
          (expr.eval row = some true ↔ op.operator.holds (compareBytes stored text) = true)) ∧
        (row.value f.columnIndex = none → expr.eval row ≠ some true) := by
  refine ⟨_, Standalone.cond (condExpression_compared inSchema op _), fun row => ⟨fun stored held => ?_, fun null => ?_⟩⟩
  · rw [keeps _ (List.getElem?_eq_getElem inSchema), Expression.eval, held, compareValue, LawfulStoolap.compare_text]
    simp
  · rw [Expression.eval, null]
    simp [compareValue]

theorem candidates_mean [LawfulStoolap] (tableName : String) {f : StoolapField} (inSchema : InSchema schema f)
    (keeps : KeepsTexts schema f) (texts : List (List UInt8)) :
    ∃ exprs : List Expression, exprs.length = texts.length ∧
      Standalone schema tableName (texts.map fun text => cond f .eq (some (.text text))) exprs ∧
      ∀ row : Row, (∀ stored, row.value f.columnIndex = some (.text stored) →
          ((∃ expr ∈ exprs, expr.eval row = some true) ↔ stored ∈ texts)) ∧
        (row.value f.columnIndex = none → ∀ expr ∈ exprs, expr.eval row ≠ some true) := by
  induction texts with
  | nil => exact ⟨[], rfl, Standalone.nil, fun row => ⟨by simp, fun _ => nofun⟩⟩
  | cons text texts ih =>
      obtain ⟨exprs, length, standalone, meaning⟩ := ih
      obtain ⟨expr, first, means⟩ := compared_text tableName inSchema keeps .eq text
      refine ⟨expr :: exprs, by simp [length], first.append standalone, fun row => ⟨fun stored held => ?_, fun null => ?_⟩⟩
      · have one : expr.eval row = some true ↔ stored = text := by
          rw [(means row).1 stored held]
          simp [KeyOp.operator, Operator.holds, compareBytes_eq_eq]
        simp only [List.mem_cons, exists_eq_or_imp, one, (meaning row).1 stored held]
      · exact List.forall_mem_cons.mpr ⟨(means row).2 null, (meaning row).2 null⟩

/-- The candidates of a padded part, as one group of conditions. -/
theorem padSpaceNodes_mean [LawfulStoolap] (tableName : String) {f : StoolapField} (inSchema : InSchema schema f)
    (keeps : KeepsTexts schema f) (text : List UInt8) :
    ∃ exprs, Standalone schema tableName (padSpaceNodes f text) exprs ∧
      ∀ row : Row, (∀ stored, row.value f.columnIndex = some (.text stored) →
          (Holds row exprs ↔ PadTakes f text stored)) ∧
        (row.value f.columnIndex = none → ¬ Holds row exprs) := by
  by_cases long : padsOf f text ≥ padSpaceLookups
  · have nodes : padSpaceNodes f text = [cond f .ge (some (.text (padded text 0))),
        cond f .le (some (.text (padded text (padsOf f text))))] := if_pos long
    obtain ⟨lower, lowerAlone, lowerMeans⟩ := compared_text tableName inSchema keeps .ge (padded text 0)
    obtain ⟨upper, upperAlone, upperMeans⟩ :=
      compared_text tableName inSchema keeps .le (padded text (padsOf f text))
    have start : padded text 0 = trimSpaces text := List.append_nil _
    refine ⟨[lower] ++ [upper], nodes ▸ lowerAlone.append upperAlone, fun row => ⟨fun stored held => ?_, fun null => ?_⟩⟩
    · rw [holds_append, holds_singleton, holds_singleton, (lowerMeans row).1 stored held, (upperMeans row).1 stored held,
        PadTakes, if_pos long, start]
      simp [KeyOp.operator, Operator.holds]
    · rw [holds_append, holds_singleton]
      exact fun both => (lowerMeans row).2 null both.1
  · obtain ⟨exprs, length, standalone, meaning⟩ := candidates_mean tableName inSchema keeps
      ((List.range (padsOf f text + 1)).map (padded text))
    have texts : ((List.range (padsOf f text + 1)).map (padded text)).map (fun text => cond f .eq (some (.text text))) =
        (List.range (padsOf f text + 1)).map fun count => cond f .eq (some (.text (padded text count))) := by
      rw [List.map_map]
      rfl
    rw [texts] at standalone
    rw [List.length_map, List.length_range] at length
    have nodes : padSpaceNodes f text = if padsOf f text > 0 then
        ((List.range (padsOf f text + 1)).map fun count => cond f .eq (some (.text (padded text count)))) ++
          [.or (padsOf f text + 1)]
        else (List.range (padsOf f text + 1)).map fun count => cond f .eq (some (.text (padded text count))) := if_neg long
    have takes (stored : List UInt8) :
        stored ∈ (List.range (padsOf f text + 1)).map (padded text) ↔ PadTakes f text stored := by
      rw [PadTakes, if_neg long, List.mem_map]
      simp only [List.mem_range, Nat.lt_succ_iff, eq_comm]
    by_cases several : padsOf f text > 0
    · have some' : exprs ≠ [] := fun empty => by simp [empty] at length
      have joined := standalone.join_or some'
      rw [length] at joined
      rw [nodes, if_pos several]
      refine ⟨[.or exprs], joined, fun row => ⟨fun stored held => ?_, fun null => ?_⟩⟩
      · rw [holds_singleton, Expression.eval_or, (meaning row).1 stored held, takes]
      · rw [holds_singleton, Expression.eval_or]
        rintro ⟨expr, member, holds⟩
        exact (meaning row).2 null expr member holds
    · rw [nodes, if_neg several]
      obtain ⟨expr, rfl⟩ := List.length_eq_one_iff.mp (length.trans (by omega))
      refine ⟨[expr], standalone, fun row => ⟨fun stored held => ?_, fun null => ?_⟩⟩
      · rw [holds_singleton, ← takes, ← (meaning row).1 stored held]
        simp
      · rw [holds_singleton]
        exact (meaning row).2 null expr (by simp)

omit [Stoolap] in
/-- A stored text that fits its column is a candidate when it equals the key
without the trailing spaces. -/
theorem padTakes_of_trimmed {f : StoolapField} {text stored : List UInt8} (short : charCount stored ≤ f.maxChars.toNat)
    (same : trimSpaces stored = trimSpaces text) : PadTakes f text stored := by
  obtain ⟨count, spelled⟩ := trimSpaces_append stored
  rw [same] at spelled
  have room : count ≤ padsOf f text := by
    rw [spelled, charCount_spaces] at short
    rw [padsOf]
    omega
  rw [PadTakes]
  split
  · rw [spelled]
    refine ⟨fun below => compareBytes_spaces (trimSpaces text) (Nat.zero_le count) ?_,
      compareBytes_spaces (trimSpaces text) room⟩
    rw [List.replicate_zero, List.append_nil]
    exact @Std.OrientedCmp.gt_of_lt _ (List.compareLex compare) _ _ _ below
  · exact ⟨count, room, spelled⟩

omit [Stoolap] in
/-- Looked up one by one the candidates are those texts only. -/
theorem padTakes_iff {f : StoolapField} {text stored : List UInt8} (few : padsOf f text < padSpaceLookups)
    (short : charCount stored ≤ f.maxChars.toNat) :
    PadTakes f text stored ↔ trimSpaces stored = trimSpaces text := by
  refine ⟨fun takes => ?_, padTakes_of_trimmed short⟩
  rw [PadTakes, if_neg (by omega)] at takes
  obtain ⟨count, -, rfl⟩ := takes
  rw [padded, trimSpaces_spaces, trimSpaces_trimSpaces]

end Pads

/-- A part of a lookup with its value in the key. -/
structure Entry where
  part : KeyPart
  field : StoolapField
  key : Option Datum

def entries : List KeyPart → List StoolapField → List (Option Datum) → List Entry
  | p :: parts, f :: fields, key :: keys => ⟨p, f, key⟩ :: entries parts fields keys
  | _, _, _ => []

section Lookup

variable [Stoolap] {schema : Schema} {tableName : String}

/-- What a lookup's conditions take at a part. -/
def Candidate (entry : Entry) (stored : Value) : Prop :=
  if keyPartNeedsFilter entry.part false then
    match keyPartPads entry.part false && entry.field.kind = .varchar, entry.key with
    | true, some (.text text) => ∃ bytes, stored = some (.text bytes) ∧ PadTakes entry.field text bytes
    | _, _ => True
  else Meets .eq [keyValueOf entry.part.column entry.key] [stored]

/-- A column stoolap reads as a text itself holds no other values. -/
def TextOrNull (entry : Entry) (stored : Value) : Prop :=
  entry.field.kind = .varchar → stored = none ∨ ∃ bytes, stored = some (.text bytes)

omit [Stoolap] in
theorem fieldEnc_utf8 {f : Field} (isVarchar : f.realType = .varchar) (utf8 : textIsUtf8 f.charset = true) :
    fieldEnc f = .plain := by
  simp only [fieldEnc, isVarchar, utf8, if_true]

theorem keepsTexts {p : KeyPart} {f : StoolapField} (described : Describes schema p f) (isVarchar : f.kind = .varchar) :
    KeepsTexts schema f := by
  obtain ⟨real, utf8, -⟩ := described.varchar isVarchar
  intro column here text
  refine described.casts (.text text) _ (.inl (by rw [real]; rfl)) ?_ column here
  rw [extractField, fieldEnc_utf8 real utf8, if_neg (by decide)]

theorem fits_keyValueOf {p : KeyPart} {f : StoolapField} (described : Describes schema p f) {key : Option Datum}
    (typed : ∀ datum, key = some datum → Typed p.column datum) : Fits schema (f, keyValueOf p.column key) := by
  cases key with
  | none => trivial
  | some datum =>
      cases extracted : extractField p.column datum with
      | none => simp only [keyValueOf, extracted, Fits]
      | some scalar =>
          simp only [keyValueOf, extracted, Fits]
          exact ⟨scalar, rfl, described.casts datum scalar (typed datum rfl) extracted⟩

/-- A part left to the filter: a padded one stoolap reads itself has its
candidates, another no condition. -/
theorem lookup_filtered [LawfulStoolap] (tableName : String) (start : List Node) {bound : StoolapKeyBound} {src : RecordIn}
    {index : Nat} {entry : Entry} (rest : List StoolapField) (out : List Node)
    (described : Describes schema entry.part entry.field)
    (reads : entry.field.kind = .varchar → keyValue entry.field src = .ok (keyValueOf entry.part.column entry.key))
    (typed : ∀ datum, entry.key = some datum → Typed entry.part.column datum)
    (filtered : keyPartNeedsFilter entry.part false = true) (skip : partBit bound.skip index = true)
    (pad : partBit bound.pad index = keyPartPads entry.part false) :
    ∃ nodes exprs, lookupNodes bound src start index (entry.field :: rest) out =
          lookupNodes bound src start (index + 1) rest (out ++ nodes) ∧
        Standalone schema tableName nodes exprs ∧
        ∀ row : Row, TextOrNull entry (row.value entry.field.columnIndex) →
          (Holds row exprs ↔ Candidate entry (row.value entry.field.columnIndex)) := by
  obtain ⟨p, f, key⟩ := entry
  simp only at described reads typed filtered pad ⊢
  have untouched (same : lookupNodes bound src start index (f :: rest) out =
        lookupNodes bound src start (index + 1) rest out) (all : ∀ stored, Candidate ⟨p, f, key⟩ stored) :
      ∃ nodes exprs, lookupNodes bound src start index (f :: rest) out =
          lookupNodes bound src start (index + 1) rest (out ++ nodes) ∧
        Standalone schema tableName nodes exprs ∧
        ∀ row : Row, TextOrNull ⟨p, f, key⟩ (row.value f.columnIndex) →
          (Holds row exprs ↔ Candidate ⟨p, f, key⟩ (row.value f.columnIndex)) :=
    ⟨[], [], by rw [same, List.append_nil], Standalone.nil, fun row _ => by simp [all]⟩
  by_cases padding : (keyPartPads p false && decide (f.kind = .varchar)) = true
  · have isVarchar : f.kind = .varchar := by simp at padding; exact padding.2
    obtain ⟨real, utf8, -⟩ := described.varchar isVarchar
    have reads := reads isVarchar
    cases key with
    | none =>
        refine untouched ?_ fun stored => ?_
        · simp only [lookupNodes, skip, if_true, pad, padding, reads, keyValueOf]
        · simp [Candidate, filtered, padding]
    | some datum =>
        cases datum with
        | number value => exact absurd (typed _ rfl).1 (by rw [real]; decide)
        | real bits => exact absurd (typed _ rfl) (by simp [Typed, real])
        | text text =>
            have stored : keyValueOf p.column (some (.text text)) = .value (some (.text text)) := by
              simp [keyValueOf, extractField, fieldEnc_utf8 real utf8]
            obtain ⟨exprs, standalone, meaning⟩ :=
              padSpaceNodes_mean tableName described.inSchema (keepsTexts described isVarchar) text
            refine ⟨_, exprs, ?_, standalone, fun row texts => ?_⟩
            · simp only [lookupNodes, skip, if_true, pad, padding, reads, stored]
            · simp only [Candidate, filtered, if_true, padding]
              rcases texts isVarchar with null | ⟨bytes, held⟩
              · simp only [null, reduceCtorEq, false_and, exists_false, iff_false]
                exact (meaning row).2 null
              · rw [(meaning row).1 bytes held]
                simp [held]
  · refine untouched ?_ fun stored => ?_
    · simp only [lookupNodes, skip, if_true, pad, padding, Bool.false_eq_true, if_false]
    · simp [Candidate, filtered, padding]

/-- One part of a lookup: its conditions, or that no row can be found. -/
theorem lookup_entry [LawfulStoolap] (tableName : String) (start : List Node) {bound : StoolapKeyBound} {src : RecordIn}
    {index : Nat} {entry : Entry} (rest : List StoolapField) (out : List Node)
    (described : Describes schema entry.part entry.field)
    (reads : keyValue entry.field src = .ok (keyValueOf entry.part.column entry.key))
    (typed : ∀ datum, entry.key = some datum → Typed entry.part.column datum) (op : bound.op = .eq)
    (skip : partBit bound.skip index = keyPartNeedsFilter entry.part false)
    (pad : partBit bound.pad index = keyPartPads entry.part false) :
    (∃ nodes exprs, lookupNodes bound src start index (entry.field :: rest) out =
          lookupNodes bound src start (index + 1) rest (out ++ nodes) ∧
        Standalone schema tableName nodes exprs ∧
        ∀ row : Row, TextOrNull entry (row.value entry.field.columnIndex) →
          (Holds row exprs ↔ Candidate entry (row.value entry.field.columnIndex))) ∨
      (lookupNodes bound src start index (entry.field :: rest) out = .ok (false, start) ∧
        ∀ row : Row, ¬ Candidate entry (row.value entry.field.columnIndex)) := by
  by_cases filtered : keyPartNeedsFilter entry.part false = true
  · rw [filtered] at skip
    exact .inl (lookup_filtered tableName start rest out described (fun _ => reads) typed filtered skip pad)
  · obtain ⟨p, f, key⟩ := entry
    simp only at described reads typed skip pad filtered ⊢
    have plain : keyPartNeedsFilter p false = false := by simpa using filtered
    rw [plain] at skip
    have ops : (if rest.isEmpty = true then bound.op else KeyOp.eq) = .eq := by rw [op]; exact ite_self _
    have meaning := @compare_means _ schema tableName (f, keyValueOf p.column key) described.inSchema
      (fits_keyValueOf described typed) .eq
    have candidate (stored : Value) :
        Candidate ⟨p, f, key⟩ stored ↔ Meets .eq [keyValueOf p.column key] [stored] := by
      simp only [Candidate, plain, Bool.false_eq_true, if_false]
    simp only [candidate]
    simp only [lookupNodes, skip, Bool.false_eq_true, if_false, reads, ops, compareInto]
    cases compared : Key.compare f .eq (keyValueOf p.column key) with
    | constTrue =>
        rw [compared] at meaning
        refine .inl ⟨[], [], by simp, Standalone.nil, fun row _ => ?_⟩
        exact ⟨fun _ => meaning row, fun _ => holds_nil⟩
    | constFalse =>
        rw [compared] at meaning
        exact .inr ⟨rfl, meaning⟩
    | nodes conds =>
        rw [compared] at meaning
        obtain ⟨expr, standalone, holds⟩ := meaning
        refine .inl ⟨conds, [expr], rfl, standalone, fun row _ => ?_⟩
        rw [holds_singleton, holds]
        rfl

/-- The parts of a lookup as they are described, restored and masked. -/
structure Looks (schema : Schema) (bound : StoolapKeyBound) (src : RecordIn) (index : Nat) (list : List Entry) : Prop where
  op : bound.op = .eq
  described : ∀ entry ∈ list, Describes schema entry.part entry.field
  reads : ∀ entry ∈ list, keyValue entry.field src = .ok (keyValueOf entry.part.column entry.key)
  typed : ∀ entry ∈ list, ∀ datum, entry.key = some datum → Typed entry.part.column datum
  masks : ∀ offset entry, list[offset]? = some entry →
    partBit bound.skip (index + offset) = keyPartNeedsFilter entry.part false ∧
      partBit bound.pad (index + offset) = keyPartPads entry.part false

theorem Looks.rest {bound : StoolapKeyBound} {src : RecordIn} {index : Nat} {entry : Entry} {list : List Entry}
    (looks : Looks schema bound src index (entry :: list)) : Looks schema bound src (index + 1) list where
  op := looks.op
  described other member := looks.described other (List.mem_cons_of_mem _ member)
  reads other member := looks.reads other (List.mem_cons_of_mem _ member)
  typed other member := looks.typed other (List.mem_cons_of_mem _ member)
  masks offset other here := by
    have shifted := looks.masks (offset + 1) other here
    rwa [← Nat.add_assoc, Nat.add_right_comm] at shifted

/-- A lookup's conditions take the rows that are candidates at every part. -/
theorem lookupNodes_mean [LawfulStoolap] (tableName : String) (start : List Node) {bound : StoolapKeyBound}
    {src : RecordIn} {index : Nat} {list : List Entry} (out : List Node)
    (looks : Looks schema bound src index list) :
    match lookupNodes bound src start index (list.map Entry.field) out with
    | .error _ => False
    | .ok (false, _) => ∀ row : Row, ∃ entry ∈ list, ¬ Candidate entry (row.value entry.field.columnIndex)
    | .ok (true, conds) => ∃ nodes exprs, conds = out ++ nodes ∧ Standalone schema tableName nodes exprs ∧
        ∀ row : Row, (∀ entry ∈ list, TextOrNull entry (row.value entry.field.columnIndex)) →
          (Holds row exprs ↔ ∀ entry ∈ list, Candidate entry (row.value entry.field.columnIndex)) := by
  induction list generalizing index out with
  | nil => exact ⟨[], [], by simp, Standalone.nil, fun row _ => by simp⟩
  | cons entry list ih =>
      obtain ⟨skip, pad⟩ := looks.masks 0 entry rfl
      rw [Nat.add_zero] at skip pad
      have step := lookup_entry tableName start (list.map Entry.field) out (looks.described entry (by simp))
        (looks.reads entry (by simp)) (looks.typed entry (by simp)) looks.op skip pad
      rw [List.map_cons]
      rcases step with ⟨nodes, exprs, same, standalone, meaning⟩ | ⟨same, never⟩
      · have rest := ih (out ++ nodes) looks.rest
        rw [same]
        cases ran : lookupNodes bound src start (index + 1) (list.map Entry.field) (out ++ nodes) with
        | error message =>
            rw [ran] at rest
            exact rest
        | ok result =>
            rw [ran] at rest
            obtain ⟨possible, conds⟩ := result
            cases possible with
            | false =>
                intro row
                obtain ⟨other, member, not⟩ := rest row
                exact ⟨other, List.mem_cons_of_mem _ member, not⟩
            | true =>
                obtain ⟨more, moreExprs, rfl, moreAlone, moreMeans⟩ := rest
                refine ⟨nodes ++ more, exprs ++ moreExprs, List.append_assoc _ _ _, standalone.append moreAlone,
                  fun row texts => ?_⟩
                rw [List.forall_mem_cons] at texts ⊢
                rw [holds_append, meaning row texts.1, moreMeans row texts.2]
      · rw [same]
        exact fun row => ⟨entry, by simp, never row⟩

end Lookup

section Parts

variable [Stoolap] {cmp : Comparisons} {p : KeyPart} {value key : Option Datum}

omit [Stoolap] in
/-- Values of one field are of one kind. -/
theorem Typed.kinds {c : TableField} {left right : Datum} (leftTyped : Typed c left) (rightTyped : Typed c right) :
    (∃ one two, left = .number one ∧ right = .number two) ∨ (∃ one two, left = .real one ∧ right = .real two) ∨
      ∃ one two, left = .text one ∧ right = .text two := by
  cases left with
  | number one =>
      obtain ⟨noString, noFloat, noDouble, noDecimal, -⟩ := leftTyped
      cases right with
      | number two => exact .inl ⟨one, two, rfl, rfl⟩
      | real two => exact rightTyped.elim (fun same => absurd same noFloat) fun same => absurd same noDouble
      | text two => exact rightTyped.elim (fun same => by simp [same] at noString) fun same => absurd same noDecimal
  | real one =>
      cases right with
      | number two =>
          exact leftTyped.elim (fun same => absurd same rightTyped.2.1) fun same => absurd same rightTyped.2.2.1
      | real two => exact .inr (.inl ⟨one, two, rfl, rfl⟩)
      | text two =>
          rcases leftTyped with float | double <;> rcases rightTyped with string | decimal <;> simp_all [RealType.isString]
  | text one =>
      cases right with
      | number two =>
          exact leftTyped.elim (fun same => absurd (rightTyped.1.symm.trans same) (by decide)) fun same =>
            absurd same rightTyped.2.2.2.1
      | real two =>
          rcases leftTyped with string | decimal <;> rcases rightTyped with float | double <;> simp_all [RealType.isString]
      | text two => exact .inr (.inr ⟨one, two, rfl, rfl⟩)

omit [Stoolap] in
/-- A value past every stored one is no stored one. -/
theorem compareDatum_beyond {stored bound : Datum} (held : (extractField p.column stored).isSome = true)
    (beyond : extractField p.column bound = none) : cmp.compareDatum p stored bound ≠ .eq := by
  cases bound with
  | real bits => cases beyond
  | text bytes => cases beyond
  | number value =>
      cases stored with
      | real bits => simp [Comparisons.compareDatum]
      | text bytes => simp [Comparisons.compareDatum]
      | number other =>
          simp only [extractField] at beyond held
          intro same
          have equal := Std.compare_eq_iff_eq.mp (show compare other value = .eq from same)
          subst equal
          rw [beyond] at held
          cases held

variable [LawfulStoolap]

/-- Two stored values are equal to stoolap when they are to MariaDB. -/
theorem compare_stored_eq (lawful : cmp.Lawful) (exact : keyPartNeedsFilter p false = false)
    (noDecimal : p.column.field.realType ≠ .newDecimal) {stored bound : Datum} {left right : Scalar}
    (storedTyped : Typed p.column stored) (boundTyped : Typed p.column bound)
    (one : extractField p.column stored = some left) (two : extractField p.column bound = some right) :
    Stoolap.compare left right = .eq ↔ cmp.compareDatum p stored bound = .eq := by
  have same (scalars : left = right ↔ stored = bound) (datums : cmp.compareDatum p stored bound = .eq ↔ stored = bound)
      (stoolap : Stoolap.compare left right = .eq ↔ left = right) :
      Stoolap.compare left right = .eq ↔ cmp.compareDatum p stored bound = .eq := by rw [stoolap, scalars, datums]
  have scalars : left = right ↔ stored = bound := by
    constructor
    · rintro rfl
      exact extractField_injective storedTyped boundTyped one two
    · rintro rfl
      exact Option.some.inj (one.symm.trans two)
  rcases storedTyped.kinds boundTyped with ⟨first, second, rfl, rfl⟩ | ⟨first, second, rfl, rfl⟩ | ⟨first, second, rfl, rfl⟩
  · refine same scalars ?_ ?_
    · simp [Comparisons.compareDatum]
    · simp only [extractField] at one two
      split at one
      · cases one
      · split at two
        · cases two
        · cases one
          cases two
          rw [LawfulStoolap.compare_integer, Std.compare_eq_iff_eq, Scalar.integer.injEq]
  · cases one
    cases two
    rw [Comparisons.compareDatum, lawful.real]
  · have isString : p.column.field.realType.isString = true := storedTyped.resolve_right noDecimal
    refine same scalars ?_ ?_
    · rw [Comparisons.compareDatum, Datum.text.injEq, Comparisons.compareText]
      split
      · rename_i sorts
        have noPad : padSpace p.column.field = false := by
          simp only [Bool.and_eq_true, Bool.not_eq_true'] at sorts
          simp only [keyPartNeedsFilter, sorts.1.2, isString, Bool.false_eq_true, if_false, if_true] at exact
          simp only [padSpace]
          cases charset : p.column.field.charset with
          | none => rfl
          | some cs =>
              rw [charset] at exact
              cases binary : cs.isBinary <;> cases nopad : cs.nopad <;> simp_all
        rw [noPad, if_neg (by decide), compareBytes_eq_eq]
      · exact lawful.binary p isString exact first second
    · cases one
      cases two
      rw [LawfulStoolap.compare_text, compareBytes_eq_eq, Scalar.text.injEq]

/-- Where stoolap compares for equality, it does as MariaDB. -/
theorem meets_iff_equal (lawful : cmp.Lawful) (exact : keyPartNeedsFilter p false = false)
    (noDecimal : p.column.field.realType ≠ .newDecimal) (held : Held p.column value)
    (typed : ∀ datum, key = some datum → Typed p.column datum) :
    Meets .eq [keyValueOf p.column key] [value.bind (extractField p.column)] ↔ cmp.comparePart p value key = .eq := by
  have one (key : KeyValue) (stored : Value) : Meets .eq [key] [stored] ↔ partOrder key stored = .eq := by
    simp [Meets, lexOrder]
  rw [one]
  cases value with
  | none =>
      cases key with
      | none => simp [keyValueOf, partOrder, Comparisons.comparePart]
      | some bound => cases extracted : extractField p.column bound <;>
          simp [keyValueOf, extracted, partOrder, Comparisons.comparePart]
  | some datum =>
      obtain ⟨storedTyped, stored⟩ := held datum rfl
      obtain ⟨scalar, extracted⟩ := Option.isSome_iff_exists.mp stored
      rw [Option.bind_some, extracted]
      cases key with
      | none => simp [keyValueOf, partOrder, Comparisons.comparePart]
      | some bound =>
          rw [Comparisons.comparePart]
          cases bounded : extractField p.column bound with
          | none =>
              simp only [keyValueOf, bounded, partOrder, reduceCtorEq, false_iff]
              exact compareDatum_beyond stored bounded
          | some other =>
              simp only [keyValueOf, bounded, partOrder]
              exact compare_stored_eq lawful exact noDecimal storedTyped (typed bound rfl) extracted bounded

omit [LawfulStoolap] in
/-- A padded part stoolap reads itself compares texts padded. -/
theorem compareText_padded {schema : Schema} {f : StoolapField} (described : Describes schema p f)
    (pads : keyPartPads p false = true) (isVarchar : f.kind = .varchar) (left right : List UInt8) :
    cmp.compareText p left right = comparePadded left right := by
  obtain ⟨real, utf8, traditional⟩ := described.varchar isVarchar
  simp only [keyPartPads, Bool.and_eq_true, Bool.not_eq_true'] at pads
  obtain ⟨⟨filtered, whole⟩, binsort⟩ := pads
  cases charset : p.column.field.charset with
  | none => simp [charset] at binsort
  | some cs =>
      rw [charset] at binsort
      have plain : fieldEnc p.column.field = .plain := fieldEnc_utf8 real utf8
      have isString : p.column.field.realType.isString = true := by rw [real]; rfl
      simp only [keyPartNeedsFilter, whole, isString, charset, Bool.false_eq_true, if_false, if_true] at filtered
      have sorts : sortsBytes p.column.field = true := by
        simp [sortsBytes, charset, traditional, binsort, plain]
      have pad : padSpace p.column.field = true := by
        simp only [padSpace, charset]
        cases binary : cs.isBinary <;> cases nopad : cs.nopad <;> simp_all
      simp only [Comparisons.compareText, isString, whole, sorts, pad, Bool.not_false, Bool.and_self, if_true]

/-- A row equal to the key is a candidate. -/
theorem candidate_of_equal {schema : Schema} {f : StoolapField} (lawful : cmp.Lawful)
    (described : Describes schema p f)
    (noDecimal : keyPartNeedsFilter p false = false → p.column.field.realType ≠ .newDecimal)
    (held : Held p.column value) (typed : ∀ datum, key = some datum → Typed p.column datum)
    (short : keyPartPads p false = true → ∀ text, value = some (.text text) → charCount text ≤ f.maxChars.toNat)
    (equal : cmp.comparePart p value key = .eq) :
    Candidate ⟨p, f, key⟩ (value.bind (extractField p.column)) := by
  simp only [Candidate]
  split
  · rename_i filtered
    split
    · rename_i text padding
      simp only [Bool.and_eq_true, decide_eq_true_eq] at padding
      obtain ⟨pads, isVarchar⟩ := padding
      cases value with
      | none => cases equal
      | some datum =>
          cases datum with
          | number other => cases equal
          | real bits => cases equal
          | text bytes =>
              obtain ⟨real, utf8, -⟩ := described.varchar isVarchar
              refine ⟨bytes, by simp [extractField, fieldEnc_utf8 real utf8], ?_⟩
              rw [Comparisons.comparePart, Comparisons.compareDatum, compareText_padded described pads isVarchar,
                comparePadded_eq_eq] at equal
              exact padTakes_of_trimmed (short pads bytes rfl) equal
    · trivial
  · rename_i exact
    have exact : keyPartNeedsFilter p false = false := by simpa using exact
    exact (meets_iff_equal lawful exact (noDecimal exact) held typed).mpr equal

end Parts

theorem partBit_zero (index : Nat) : partBit 0 index = false := by simp [partBit]

/-- A mask of up to 32 parts has the bits it was made of. -/
theorem partBit_maskOf (bit : Nat → Bool) {count : Nat} (limit : count ≤ 32) (index : Nat) :
    partBit (maskOf bit count) index = (decide (index < count) && bit index) := by
  induction count with
  | zero => simp [maskOf, partBit_zero]
  | succ count ih =>
      have rest := ih (by omega)
      have one : ((1 : UInt32) <<< UInt32.ofNat count).toNat = 2 ^ count := by
        have small : 2 ^ count < 2 ^ 32 := Nat.pow_lt_pow_right (by decide) (by omega)
        rw [UInt32.toNat_shiftLeft, UInt32.toNat_ofNat_of_lt' (by simp [UInt32.size]; omega), Nat.mod_eq_of_lt limit,
          UInt32.toNat_one, Nat.one_shiftLeft, Nat.mod_eq_of_lt small]
      have bits : partBit (maskOf bit (count + 1)) index =
          (partBit (maskOf bit count) index || (bit count && decide (count = index))) := by
        rw [maskOf]
        split
        · rename_i set
          rw [partBit, UInt32.toNat_or, Nat.testBit_or, one, Nat.testBit_two_pow, set, Bool.true_and]
          rfl
        · rename_i unset
          simp [unset]
      rw [bits, rest]
      by_cases last : count = index
      · subst last
        simp
      · have same : (index < count + 1) = (index < count) := by
          rw [eq_iff_iff]
          omega
        simp [last, same]

theorem entries_getElem {parts : List KeyPart} {fields : List StoolapField} {key : List (Option Datum)} {index : Nat}
    {entry : Entry} (here : (entries parts fields key)[index]? = some entry) :
    parts[index]? = some entry.part ∧ fields[index]? = some entry.field ∧ key[index]? = some entry.key := by
  induction parts generalizing fields key index with
  | nil => simp [entries] at here
  | cons p parts ih =>
      cases fields with
      | nil => simp [entries] at here
      | cons f fields =>
          cases key with
          | nil => simp [entries] at here
          | cons first key =>
              cases index with
              | zero =>
                  cases here
                  exact ⟨rfl, rfl, rfl⟩
              | succ index => exact ih here

theorem entries_fields {parts : List KeyPart} {fields : List StoolapField} {key : List (Option Datum)}
    (same : parts.length = fields.length) (within : key.length ≤ parts.length) :
    (entries parts fields key).map Entry.field = fields.take key.length := by
  induction parts generalizing fields key with
  | nil =>
      cases key with
      | nil => rfl
      | cons first key => simp at within
  | cons p parts ih =>
      cases fields with
      | nil => simp at same
      | cons f fields =>
          cases key with
          | nil => rfl
          | cons first key =>
              simp only [entries, List.map_cons, List.length_cons, List.take_succ_cons,
                ih (Nat.succ.inj same) (Nat.le_of_succ_le_succ within)]

/-- The key's order is equal when every part is. -/
theorem keyCmp_eq {cmp : Comparisons} {parts : List KeyPart} {fields : List StoolapField} {key : List (Option Datum)}
    {row : TableField → Option Datum} (same : parts.length = fields.length) :
    cmp.keyCmp parts key row = .eq ↔
      ∀ entry ∈ entries parts fields key, cmp.comparePart entry.part (row entry.part.column) entry.key = .eq := by
  induction parts generalizing fields key with
  | nil => simp [Comparisons.keyCmp, entries]
  | cons p parts ih =>
      cases fields with
      | nil => simp at same
      | cons f fields =>
          cases key with
          | nil => simp [Comparisons.keyCmp, entries]
          | cons first key =>
              rw [Comparisons.keyCmp, Ordering.then_eq_eq, ih (Nat.succ.inj same), entries, List.forall_mem_cons]

section Read

variable [Stoolap]

/-- What a key was restored into reads as the key: its values have the parts'
types, and stoolap reads them from the record. -/
structure Handler.Restores (h : Handler) (key : List KeyCell) : Prop where
  typed : ∀ (index : Nat) (p : KeyPart) (cell : KeyCell), h.parts[index]? = some p → key[index]? = some cell →
    ∀ datum, cell.value = some datum → Typed p.column datum
  reads : ∀ (index : Nat) (p : KeyPart) (f : StoolapField) (cell : KeyCell), h.parts[index]? = some p →
    h.indexParts[index]? = some f → key[index]? = some cell →
    keyValue f { record := h.keyRestore key, encode := h.encodeCell } = .ok (keyValueOf p.column cell.value)

/-- The texts of padded parts fit their columns. -/
def Handler.Fitting (h : Handler) (rows : List (Int64 × FieldRow)) : Prop :=
  ∀ row ∈ rows, ∀ part ∈ h.parts.zip h.indexParts, keyPartPads part.1 false = true →
    ∀ text, row.2.value part.1.column = some (.text text) → charCount text ≤ part.2.maxChars.toNat

theorem Handler.Indexed.describedAt {h : Handler} {rows : List (Int64 × FieldRow)} (indexed : h.Indexed rows)
    {index : Nat} {p : KeyPart} {f : StoolapField} (part : h.parts[index]? = some p)
    (field : h.indexParts[index]? = some f) : Describes h.table.schema p f := by
  obtain ⟨inParts, rfl⟩ := List.getElem?_eq_some_iff.mp part
  obtain ⟨inFields, rfl⟩ := List.getElem?_eq_some_iff.mp field
  exact (List.forall₂_iff_get.mp indexed.described).2 index inParts inFields

omit [Stoolap] in
theorem keyValue_cell {key : List KeyCell} {index : Nat} {value : Option Datum}
    (here : (key.map KeyCell.value)[index]? = some value) : ∃ cell, key[index]? = some cell ∧ cell.value = value := by
  rw [List.getElem?_map, Option.map_eq_some_iff] at here
  exact here

/-- A lookup's bound over the first parts of the index. -/
def Handler.lookupBound (h : Handler) (key : List KeyCell) : StoolapKeyBound where
  record := h.keyRestore key
  nparts := Int32.ofNat key.length
  op := .eq
  skip := maskOf (partIs h.parts fun p => keyPartNeedsFilter p false) key.length
  pad := maskOf (partIs h.parts fun p => keyPartPads p false) key.length
  mode := .key

theorem looks_of_restores {h : Handler} {rows : List (Int64 × FieldRow)} {key : List KeyCell}
    (indexed : h.Indexed rows) (within : key.length ≤ h.parts.length) (restores : h.Restores key) :
    Looks h.table.schema (h.lookupBound key) { record := (h.lookupBound key).record, encode := h.encodeCell } 0
      (entries h.parts h.indexParts (key.map KeyCell.value)) where
  op := rfl
  described entry member := by
    obtain ⟨index, here⟩ := List.mem_iff_getElem?.mp member
    obtain ⟨part, field, -⟩ := entries_getElem here
    exact indexed.describedAt part field
  reads entry member := by
    obtain ⟨index, here⟩ := List.mem_iff_getElem?.mp member
    obtain ⟨part, field, value⟩ := entries_getElem here
    obtain ⟨cell, inKey, same⟩ := keyValue_cell value
    rw [← same]
    exact restores.reads index entry.part entry.field cell part field inKey
  typed entry member := by
    obtain ⟨index, here⟩ := List.mem_iff_getElem?.mp member
    obtain ⟨part, -, value⟩ := entries_getElem here
    obtain ⟨cell, inKey, same⟩ := keyValue_cell value
    rw [← same]
    exact restores.typed index entry.part cell part inKey
  masks index entry here := by
    obtain ⟨part, -, value⟩ := entries_getElem here
    have inKey : index < key.length := by
      have bound := (List.getElem?_eq_some_iff.mp value).1
      rwa [List.length_map] at bound
    have limit := within.trans indexed.limit
    have bit (property : KeyPart → Bool) : partIs h.parts property index = property entry.part := by
      simp [partIs, part]
    rw [Handler.lookupBound, Nat.zero_add, partBit_maskOf _ limit, partBit_maskOf _ limit, bit, bit]
    simp [inKey]

variable {h : Handler} {rows : List (Int64 × FieldRow)} {key : List KeyCell}

/-- A row of the table, as its lookup's conditions see it. -/
theorem entry_row (indexed : h.Indexed rows) {row : Int64 × FieldRow} (member : row ∈ rows) {entry : Entry}
    (listed : entry ∈ entries h.parts h.indexParts (key.map KeyCell.value)) :
    (storedRow h.columns row).2.value entry.field.columnIndex =
        (row.2.value entry.part.column).bind (extractField entry.part.column) ∧
      Held entry.part.column (row.2.value entry.part.column) ∧ Describes h.table.schema entry.part entry.field := by
  obtain ⟨index, here⟩ := List.mem_iff_getElem?.mp listed
  obtain ⟨part, field, -⟩ := entries_getElem here
  have isPart := List.mem_of_getElem? part
  have described := indexed.describedAt part field
  rw [described.column]
  exact ⟨storedRow_value (indexed.found _ isPart) row, indexed.held row member _ isPart, described⟩

/-- A varchar's stored value is a text. -/
theorem textOrNull_held {schema : Schema} {entry : Entry} {value : Option Datum}
    (described : Describes schema entry.part entry.field) (held : Held entry.part.column value) :
    TextOrNull entry (value.bind (extractField entry.part.column)) := by
  intro isVarchar
  cases stored : value with
  | none => exact .inl rfl
  | some datum =>
      obtain ⟨typed, -⟩ := held datum stored
      obtain ⟨real, utf8, -⟩ := described.varchar isVarchar
      cases datum with
      | number other => exact absurd typed.1 (by rw [real]; decide)
      | real bits => exact absurd typed (by simp [Typed, real])
      | text bytes => exact .inr ⟨bytes, by simp [extractField, fieldEnc_utf8 real utf8]⟩

theorem textOrNull_row (indexed : h.Indexed rows) {row : Int64 × FieldRow} (member : row ∈ rows) {entry : Entry}
    (listed : entry ∈ entries h.parts h.indexParts (key.map KeyCell.value)) :
    TextOrNull entry ((storedRow h.columns row).2.value entry.field.columnIndex) := by
  obtain ⟨value, held, described⟩ := entry_row indexed member listed
  rw [value]
  exact textOrNull_held described held

theorem candidates_of_equal [LawfulStoolap] (indexed : h.Indexed rows) (restores : h.Restores key) (fitting : h.Fitting rows)
    (noDecimal : ∀ p ∈ h.parts, keyPartNeedsFilter p false = false → p.column.field.realType ≠ .newDecimal)
    {row : Int64 × FieldRow} (member : row ∈ rows)
    (equal : h.cmp.keyCmp h.parts (key.map KeyCell.value) row.2.value = .eq) :
    ∀ entry ∈ entries h.parts h.indexParts (key.map KeyCell.value),
      Candidate entry ((storedRow h.columns row).2.value entry.field.columnIndex) := by
  intro entry listed
  obtain ⟨value, held, described⟩ := entry_row indexed member listed
  obtain ⟨index, here⟩ := List.mem_iff_getElem?.mp listed
  obtain ⟨part, field, inKey⟩ := entries_getElem here
  obtain ⟨cell, inCells, same⟩ := keyValue_cell inKey
  have isPart := List.mem_of_getElem? part
  have zipped : (entry.part, entry.field) ∈ h.parts.zip h.indexParts := by
    refine List.mem_of_getElem? (i := index) ?_
    rw [List.getElem?_zip_eq_some]
    exact ⟨part, field⟩
  rw [value]
  refine candidate_of_equal indexed.lawful described (noDecimal _ isPart) held ?_ (fitting row member _ zipped) ?_
  · rw [← same]
    exact restores.typed index _ cell part inCells
  · exact (keyCmp_eq indexed.described.length_eq).mp equal entry listed

/-- The order of an exact lookup's rows: none when a unique key finds one row
at most. -/
def Handler.lookupOrder (h : Handler) (info : KeyInfo) (key : List KeyCell) : List Nat :=
  if !(key.length = info.parts.length && info.noSame) && h.indexSorted then
    readMapOrder info.parts key.length (h.lookupBound key).skip true else []

omit [Stoolap] in
theorem Handler.lookupOrder_lt {info : KeyInfo}
    (found : ∀ p ∈ info.parts, h.columns[p.column.field.fieldIndex]? = some p.column) :
    ∀ column ∈ h.lookupOrder info key, column < h.columns.length := by
  intro column member
  simp only [lookupOrder] at member
  split at member
  · simp only [readMapOrder, List.mem_map, List.mem_filter, List.mem_range] at member
    obtain ⟨index, ⟨inParts, -⟩, rfl⟩ := member
    exact columnOf_lt found inParts
  · simp at member

/-- What the rows of an exact lookup are compared with. -/
def Handler.lookupFilter (h : Handler) (key : List KeyCell) : RowFilter :=
  if (h.lookupBound key).skip ≠ 0 then .key (key.map KeyCell.value) else .all

/-- An exact lookup is one bound, and the filter runs when a part needs it. -/
theorem indexReadMap_exact {info : KeyInfo} (active : h.keys[h.activeIndex]? = some info) (untrusted : h.trustBin = false)
    (some' : key ≠ []) (within : key.length ≤ h.parts.length) (fuel : Nat) :
    h.indexReadMap fuel key .keyExact =
      match h.openRead [h.lookupBound key] (h.lookupOrder info key) false with
      | .error outcome => (outcome, Handler.closed)
      | .ok source =>
          match h.next fuel ⟨some source, h.lookupFilter key⟩ with
          | (.endOfFile, reading) => (.keyNotFound, reading)
          | result => result := by
  have parts : h.parts = info.parts := by rw [Handler.parts, active]; rfl
  rw [parts] at within
  have count : min key.length info.parts.length = key.length := Nat.min_eq_left within
  have positive : ¬ key.length = 0 := fun zero => some' (List.length_eq_zero_iff.mp zero)
  have whole : key.take key.length = key := List.take_length
  generalize ran : h.indexReadMap fuel key .keyExact = result
  simp only [Handler.indexReadMap, active, findOp, count, if_neg positive, whole, untrusted, decide_true, if_true,
    Bool.true_and, Bool.or_false] at ran
  simp only [Handler.lookupOrder, Handler.lookupFilter, Handler.lookupBound, parts]
  exact ran.symm

omit [Stoolap] in
theorem int32_count {count : Nat} (limit : count ≤ 32) : (Int32.ofNat count).toInt.toNat = count := by
  have each : ∀ count : Fin 33, (Int32.ofNat count).toInt.toNat = count := by decide
  exact each ⟨count, by omega⟩

/-- The conditions of a lookup, over the parts it binds. -/
theorem readConds_lookup (indexed : h.Indexed rows) (some' : key ≠ []) (within : key.length ≤ h.parts.length) :
    readConds h.indexParts h.encodeCell [h.lookupBound key] [] =
      match lookupNodes (h.lookupBound key) { record := (h.lookupBound key).record, encode := h.encodeCell } [] 0
        ((entries h.parts h.indexParts (key.map KeyCell.value)).map Entry.field) [] with
      | .error message => .error message
      | .ok (false, _) => .ok none
      | .ok (true, conds) => .ok (some conds) := by
  have lengths := indexed.described.length_eq
  have fields : (entries h.parts h.indexParts (key.map KeyCell.value)).map Entry.field =
      h.indexParts.take (key.map KeyCell.value).length := entries_fields lengths (by rwa [List.length_map])
  rw [List.length_map] at fields
  have bounds : boundParts h.indexParts (h.lookupBound key) = h.indexParts.take key.length := by
    rw [boundParts, Handler.lookupBound, int32_count (within.trans indexed.limit)]
  rw [fields, readConds, boundNodes, bounds]
  cases taken : h.indexParts.take key.length with
  | nil =>
      have counted := congrArg List.length taken
      rw [List.length_take, ← lengths, Nat.min_eq_left within] at counted
      exact absurd (List.length_eq_zero_iff.mp counted) some'
  | cons f rest =>
      have notLeading : (h.lookupBound key).mode ≠ .leading := by simp [Handler.lookupBound]
      have notRange : ¬ ((h.lookupBound key).mode = .range ∧ ¬ rest.isEmpty = true ∧ (h.lookupBound key).op ≠ .eq) := by
        simp [Handler.lookupBound]
      simp only [if_neg notLeading, if_neg notRange]
      cases ran : lookupNodes (h.lookupBound key) { record := (h.lookupBound key).record, encode := h.encodeCell } [] 0
          (f :: rest) [] with
      | error message => rfl
      | ok result =>
          obtain ⟨possible, conds⟩ := result
          cases possible <;> rfl

/-- The rows whose first parts MariaDB finds equal to the key's. -/
def Handler.equals (h : Handler) (key : List KeyCell) (row : Int64 × FieldRow) : Bool :=
  h.cmp.keyCmp h.parts (key.map KeyCell.value) row.2.value = .eq

theorem keeps_key (indexed : h.Indexed rows) {row : Int64 × FieldRow} (member : row ∈ rows) :
    h.keeps (.key (key.map KeyCell.value)) (storedRow h.columns row).2 = h.equals key row := by
  have same : h.cmp.keyCmp h.parts (key.map KeyCell.value) (recordValue (storedRow h.columns row).2) =
      h.cmp.keyCmp h.parts (key.map KeyCell.value) row.2.value :=
    keyCmp_congr h.cmp fun p isPart => recordValue_storedRow (indexed.found p isPart) (indexed.held row member p isPart)
  rw [Handler.keeps, Handler.equals, same]

/-- Without a part to filter the candidates are the equal rows. -/
theorem equals_of_candidates [LawfulStoolap] (indexed : h.Indexed rows) (restores : h.Restores key)
    (within : key.length ≤ h.parts.length)
    (noDecimal : ∀ p ∈ h.parts, keyPartNeedsFilter p false = false → p.column.field.realType ≠ .newDecimal)
    (unfiltered : (h.lookupBound key).skip = 0) {row : Int64 × FieldRow} (member : row ∈ rows)
    (candidates : ∀ entry ∈ entries h.parts h.indexParts (key.map KeyCell.value),
      Candidate entry ((storedRow h.columns row).2.value entry.field.columnIndex)) :
    h.equals key row = true := by
  have looks := looks_of_restores indexed within restores
  rw [Handler.equals, decide_eq_true_eq, keyCmp_eq indexed.described.length_eq]
  intro entry listed
  obtain ⟨index, here⟩ := List.mem_iff_getElem?.mp listed
  have exact : keyPartNeedsFilter entry.part false = false := by
    rw [← (looks.masks index entry here).1, unfiltered, partBit_zero]
  obtain ⟨value, held, -⟩ := entry_row indexed member listed
  have isPart := List.mem_of_getElem? (entries_getElem here).1
  have candidate := candidates entry listed
  simp only [Candidate, exact, Bool.false_eq_true, if_false, value] at candidate
  exact (meets_iff_equal indexed.lawful exact (noDecimal _ isPart exact) held (looks.typed entry listed)).mp candidate

/-- An exact lookup gives the rows MariaDB finds equal to its key, each once,
and a padded part's conditions take the texts that are the key's but for
trailing spaces, or for a long column some that lie around them. -/
theorem exact_lookup_delivers [LawfulStoolap] (indexed : h.Indexed rows) (untrusted : h.trustBin = false)
    (noDecimal : ∀ p ∈ h.parts, keyPartNeedsFilter p false = false → p.column.field.realType ≠ .newDecimal)
    (fitting : h.Fitting rows) (some' : key ≠ []) (within : key.length ≤ h.parts.length) (restores : h.Restores key) :
    (∃ delivered : List (Int64 × FieldRow), delivered.Perm (rows.filter (h.equals key)) ∧
        ∀ fuel, rows.length < fuel → h.keyRows fuel key .keyExact = some (delivered.map (storedRow h.columns))) ∧
      ∀ part ∈ h.parts.zip h.indexParts, keyPartPads part.1 false = true → part.2.kind = .varchar → ∀ text,
        ∃ exprs, Standalone h.table.schema h.table.name (padSpaceNodes part.2 text) exprs ∧
          ∀ (row : Row) (stored : List UInt8), row.value part.2.columnIndex = some (.text stored) →
            charCount stored ≤ part.2.maxChars.toNat →
            (padsOf part.2 text < padSpaceLookups → (Holds row exprs ↔ trimSpaces stored = trimSpaces text)) ∧
              (padSpaceLookups ≤ padsOf part.2 text →
                (trimSpaces stored = trimSpaces text → Holds row exprs) ∧
                  (Holds row exprs → compareBytes stored (trimSpaces text) ≠ .lt ∧
                    compareBytes stored (padded text (padsOf part.2 text)) ≠ .gt)) := by
  refine ⟨?_, fun part zipped pads isVarchar text => ?_⟩
  · obtain ⟨info, active⟩ := indexed.key
    have looks := looks_of_restores indexed within restores
    have mean := lookupNodes_mean h.table.name [] [] looks
    have conds := readConds_lookup indexed some' within
    have candidates {row : Int64 × FieldRow} (member : row ∈ rows) (equal : h.equals key row = true) :=
      candidates_of_equal indexed restores fitting noDecimal member (of_decide_eq_true equal)
    simp only [Handler.keyRows, indexReadMap_exact active untrusted some' within]
    cases ran : lookupNodes (h.lookupBound key) { record := (h.lookupBound key).record, encode := h.encodeCell } [] 0
        ((entries h.parts h.indexParts (key.map KeyCell.value)).map Entry.field) [] with
    | error message =>
        rw [ran] at mean
        exact mean.elim
    | ok result =>
        obtain ⟨possible, nodes⟩ := result
        rw [ran] at mean conds
        cases possible with
        | false =>
            have none_ : rows.filter (h.equals key) = [] := by
              rw [List.filter_eq_nil_iff]
              intro row member equal
              obtain ⟨entry, listed, not⟩ := mean (storedRow h.columns row).2
              exact not (candidates member equal entry listed)
            refine ⟨[], by rw [none_], fun fuel _ => ?_⟩
            simp only [Handler.openRead, conds, List.map_nil]
        | true =>
            obtain ⟨own, exprs, rfl, standalone, meaning⟩ := mean
            have ordering : ∀ column ∈ h.lookupOrder info key, column < h.columns.length :=
              Handler.lookupOrder_lt fun p isPart => indexed.found p (by rwa [Handler.parts, active])
            obtain ⟨source, found, opened, delivers, perm⟩ :=
              Handler.openRead_delivers indexed false ordering conds standalone.builds
            have takes {row : Int64 × FieldRow} (member : row ∈ rows) :=
              meaning (storedRow h.columns row).2 fun entry listed => textOrNull_row indexed member listed
            obtain ⟨delivered, order, spelled⟩ := @Handler.rows_of_found _ h rows exprs (h.lookupFilter key) found
              (h.equals key) perm fun row member => by
                rw [Bool.eq_iff_iff, Bool.and_eq_true, taken_iff, takes member, Handler.lookupFilter]
                split
                · rw [keeps_key indexed member]
                  exact and_iff_right_of_imp (candidates member)
                · rename_i unfiltered
                  refine ⟨fun both => ?_, fun equal => ⟨candidates member equal, rfl⟩⟩
                  exact equals_of_candidates indexed restores within noDecimal (not_not.mp unfiltered) member both.1
            refine ⟨delivered, order, fun fuel enough => ?_⟩
            have fewer : found.length ≤ rows.length := by
              rw [perm.length_eq]
              exact (List.length_filter_le _ _).trans_eq (List.length_map _)
            have given := Handler.rowsFrom_delivers (h.lookupFilter key) delivers (fewer.trans_lt enough)
              (fewer.trans_lt enough)
            rw [spelled] at given
            simp only [opened]
            rcases Handler.next_delivers (h.lookupFilter key) delivers (fewer.trans_lt enough) with
              ⟨nothing, after, ended⟩ | ⟨row, rest, after, -, -, -, stepped⟩
            · rw [spelled] at nothing
              simp only [ended, nothing]
            · rw [stepped] at given
              simp only [stepped, given]
  · obtain ⟨index, here⟩ := List.mem_iff_getElem?.mp zipped
    obtain ⟨isPart, isField⟩ := List.getElem?_zip_eq_some.mp here
    have described := indexed.describedAt isPart isField
    obtain ⟨exprs, standalone, meaning⟩ :=
      padSpaceNodes_mean h.table.name described.inSchema (keepsTexts described isVarchar) text
    refine ⟨exprs, standalone, fun row stored held short => ?_⟩
    rw [(meaning row).1 stored held]
    refine ⟨fun few => padTakes_iff few short, fun many => ⟨padTakes_of_trimmed short, fun takes => ?_⟩⟩
    rwa [PadTakes, if_pos many] at takes

end Read

/-- An index on a VARCHAR(2) in `utf8mb4_bin` and an INT. -/
def sampleColumns : List TableField := [⟨textField, false⟩, ⟨intField, false⟩]

def sampleInfo : KeyInfo := ⟨[⟨⟨textField, false⟩, false⟩, ⟨⟨intField, false⟩, false⟩], false⟩

def sampleParts : List StoolapField :=
  [{ column := 0, kind := .varchar, offset := 1, nullOffset := 0, nullMask := 1, length := 1, maxChars := 2,
     isUnsigned := false, field := 0, packLength := 9 },
   { column := 1, kind := .int, offset := 10, nullOffset := 0, nullMask := 0, length := 4, maxChars := 0,
     isUnsigned := false, field := 1, packLength := 4 }]

def sampleSchema : Schema where
  columns := [{ name := "s", dataType := .text }, { name := "n", dataType := .integer }]
  pkColumn := none

def sampleText (text : List UInt8) : FieldRow := [some (.text text), some (.number 2)]

/-- `('a', 2)`, `('a ', 2)` and `('a\t', 2)`. -/
def sampleRows : List (Int64 × FieldRow) :=
  [(1, sampleText [0x61]), (2, sampleText [0x61, 0x20]), (3, sampleText [0x61, 0x09])]

def sampleComparisons : Comparisons where
  collate _ := compareBytes
  real left right := Stoolap.reference.compare (.float left) (.float right)

def sampleHandler (rows : List (Int64 × FieldRow)) : Handler where
  table := @TableView.ofRows Stoolap.reference "t" sampleSchema (rows.map (storedRow sampleColumns))
  columns := sampleColumns
  keys := [sampleInfo]
  activeIndex := 0
  indexSorted := true
  indexParts := sampleParts
  keyRestore cells := fun offset => (0 :: cells.flatMap KeyCell.image).getD offset 0
  encodeCell := none
  cmp := sampleComparisons
  trustBin := false
  readFields := [0, 1]
  fixed := false
  constKeyParts _ := false

/-- The key `('a', 2)`. -/
def sampleKey : List KeyCell :=
  [⟨[1, 0x61, 0, 0, 0, 0, 0, 0, 0], some (.text [0x61])⟩, ⟨[2, 0, 0, 0], some (.number 2)⟩]

theorem sampleComparisons_lawful : @Comparisons.Lawful Stoolap.reference sampleComparisons :=
  @Comparisons.Lawful.mk Stoolap.reference sampleComparisons (fun _ _ => rfl) fun _ _ _ _ _ => compareBytes_eq_eq

theorem sampleParts_described :
    List.Forall₂ (@Describes Stoolap.reference sampleSchema) sampleInfo.parts sampleParts :=
  let reference := Stoolap.reference
  .cons { column := rfl, inSchema := by decide, varchar := fun _ => ⟨rfl, rfl, rfl⟩, casts := fun _ _ _ _ _ _ => rfl }
    (.cons { column := rfl, inSchema := by decide, varchar := nofun, casts := fun _ _ _ _ _ _ => rfl } .nil)

theorem sampleHandler_indexed {rows : List (Int64 × FieldRow)}
    (held : ∀ row ∈ rows, ∀ p ∈ sampleInfo.parts, Held p.column (row.2.value p.column)) :
    @Handler.Indexed Stoolap.reference (sampleHandler rows) rows := by
  let reference := Stoolap.reference
  have lawful := Stoolap.reference_lawful
  exact
    { key := ⟨sampleInfo, rfl⟩
      limit := (by decide : sampleInfo.parts.length ≤ 32)
      described := sampleParts_described
      found := by
        intro p member
        simp only [Handler.parts, sampleHandler, List.getElem?_cons_zero, Option.map_some, Option.getD_some, sampleInfo,
          List.mem_cons, List.not_mem_nil, or_false] at member
        rcases member with rfl | rfl <;> rfl
      count := rfl
      readFields := (by decide : ∀ column ∈ [0, 1], column < sampleSchema.columns.length)
      held
      serves := TableView.ofRows_serves "t" rfl _
      lawful := sampleComparisons_lawful }

theorem sampleText_held (text : List UInt8) :
    ∀ p ∈ sampleInfo.parts, Held p.column ((sampleText text).value p.column) := by
  intro p member datum same
  simp only [sampleInfo, List.mem_cons, List.not_mem_nil, or_false] at member
  rcases member with rfl | rfl
  · cases same
    exact ⟨.inl rfl, rfl⟩
  · cases same
    exact ⟨⟨rfl, by decide, by decide, by decide, by decide⟩, rfl⟩

theorem sampleRows_text {row : Int64 × FieldRow} (member : row ∈ sampleRows) :
    ∃ text, row.2 = sampleText text ∧ charCount text ≤ 2 := by
  simp only [sampleRows, List.mem_cons, List.not_mem_nil, or_false] at member
  rcases member with rfl | rfl | rfl
  · exact ⟨[0x61], rfl, by decide⟩
  · exact ⟨[0x61, 0x20], rfl, by decide⟩
  · exact ⟨[0x61, 0x09], rfl, by decide⟩

theorem sampleKey_restored : @Handler.Restores Stoolap.reference (sampleHandler sampleRows) sampleKey :=
  @Handler.Restores.mk Stoolap.reference _ _
    (fun index p cell part here datum same => by
      rcases index with _ | _ | index
      · cases part
        cases here
        cases same
        exact .inl rfl
      · cases part
        cases here
        cases same
        exact ⟨rfl, by decide, by decide, by decide, by decide⟩
      · cases here)
    fun index p f cell part field here => by
      rcases index with _ | _ | index
      · cases part
        cases field
        cases here
        rfl
      · cases part
        cases field
        cases here
        rfl
      · cases here

theorem sampleHandler_fitting : (sampleHandler sampleRows).Fitting sampleRows := by
  intro row member part zipped pads text same
  obtain ⟨own, spelled, short⟩ := sampleRows_text member
  have parts : (sampleHandler sampleRows).parts.zip (sampleHandler sampleRows).indexParts =
      sampleInfo.parts.zip sampleParts := rfl
  rw [parts] at zipped
  simp only [sampleInfo, sampleParts, List.zip_cons_cons, List.zip_nil_right, List.mem_cons, List.not_mem_nil,
    or_false] at zipped
  rcases zipped with rfl | rfl
  · rw [spelled] at same
    cases same
    exact short
  · cases pads

/-- The lookup of `('a', 2)` finds 'a' and 'a ', not 'a' and a tab. -/
theorem exact_lookup_delivers_sample :
    ∃ delivered : List (Int64 × FieldRow),
      delivered.Perm [(1, sampleText [0x61]), (2, sampleText [0x61, 0x20])] ∧
      ∀ fuel, 3 < fuel → @Handler.keyRows (sampleHandler sampleRows) Stoolap.reference fuel sampleKey .keyExact =
        some (delivered.map (storedRow sampleColumns)) := by
  have lookup := @exact_lookup_delivers Stoolap.reference (sampleHandler sampleRows) sampleRows sampleKey
    Stoolap.reference_lawful
    (sampleHandler_indexed fun row member => by
      obtain ⟨text, same, -⟩ := sampleRows_text member
      rw [same]
      exact sampleText_held text)
    rfl
    (by decide)
    sampleHandler_fitting
    (by decide) (by decide) sampleKey_restored
  exact lookup.1

end StoolapMariadb.KeyRead
