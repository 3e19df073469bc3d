import StoolapMariadb.ExactLookup

namespace StoolapMariadb.KeyRead

open StoolapMariadb.Types Index Record Read Key

/-! A filtered range read: whatever bounds stoolap is given, every row of the
range is among its candidates, and the filter tests both ends on each. -/

/-- The rows within a range, by MariaDB's key order. -/
def InRange (cmp : Comparisons) (parts : List KeyPart) (start stop : Option KeyRange)
    (row : TableField → Option Datum) : Prop :=
  (∀ range ∈ start,
    match range.flag with
    | .keyExact | .keyStart => cmp.keyCmp parts range.values row = .eq
    | .afterKey => cmp.keyCmp parts range.values row = .gt
    | _ => cmp.keyCmp parts range.values row ≠ .lt) ∧
  ∀ range ∈ stop,
    match range.flag with
    | .beforeKey => cmp.keyCmp parts range.values row = .lt
    | _ => cmp.keyCmp parts range.values row ≠ .gt

theorem rangeInBounds_iff {cmp : Comparisons} {parts : List KeyPart} {start stop : Option KeyRange}
    {row : TableField → Option Datum} :
    rangeInBounds cmp parts start stop row = true ↔ InRange cmp parts start stop row := by
  unfold rangeInBounds InRange
  rw [Bool.and_eq_true]
  refine and_congr ?_ ?_
  · cases start with
    | none => simp
    | some range => cases flag : range.flag <;> simp [flag]
  · cases stop with
    | none => simp
    | some range =>
        cases flag : range.flag <;> cases order : cmp.keyCmp parts range.values row <;>
          simp [flag, order, compareEnd]

section First

variable {cmp : Comparisons} {p : KeyPart} {parts : List KeyPart} {start stop : Option KeyRange}
  {row : TableField → Option Datum}

/-- A row of the range is not before the start on the first part. -/
theorem InRange.first {range : KeyRange} {cell : KeyCell} {cells : List KeyCell}
    (within : InRange cmp (p :: parts) (some range) stop row) (key : range.cells = cell :: cells) :
    cmp.comparePart p (row p.column) cell.value ≠ .lt := by
  have order := within.1 range rfl
  intro below
  have less : cmp.keyCmp (p :: parts) range.values row = .lt := by
    rw [KeyRange.values, key, List.map_cons, Comparisons.keyCmp, below]
    rfl
  rw [less] at order
  split at order
  · cases order
  · cases order
  · cases order
  · exact order rfl

/-- Nor past the end. -/
theorem InRange.last {range : KeyRange} {cell : KeyCell} {cells : List KeyCell}
    (within : InRange cmp (p :: parts) start (some range) row) (key : range.cells = cell :: cells) :
    cmp.comparePart p (row p.column) cell.value ≠ .gt := by
  have order := within.2 range rfl
  intro above
  have more : cmp.keyCmp (p :: parts) range.values row = .gt := by
    rw [KeyRange.values, key, List.map_cons, Comparisons.keyCmp, above]
    rfl
  rw [more] at order
  split at order
  · cases order
  · exact order rfl

end First

/-- What is asked of a first part that the flags promise an order on: its text
is no plugin type's, a trusted one does not pad with spaces, and a BIT's values
leave the top bit. -/
structure Plain (trustBin : Bool) (p : KeyPart) (values : Option Datum → Prop) : Prop where
  traditional : p.column.field.realType.isString = true → p.column.field.isTraditionalScalarType = true
  trusted : trustBin = true → padSpace p.column.field = false
  below : p.column.field.realType = .other → ∀ number, values (some (.number number)) → number < 2 ^ 63

section Safe

variable [Stoolap] [LawfulStoolap] {cmp : Comparisons} {p : KeyPart}

omit [Stoolap] [LawfulStoolap] in
/-- A number that stoolap holds fits its signed column. -/
theorem signed_range {number : Int} {scalar : Scalar} (typed : Typed p.column (.number number))
    (noSet : p.column.field.realType ≠ .set) (below : p.column.field.realType = .other → number < 2 ^ 63)
    (stored : extractField p.column (.number number) = some scalar) :
    scalar = .integer (Int64.ofInt number) ∧ -2 ^ 63 ≤ number ∧ number < 2 ^ 63 := by
  simp only [extractField] at stored
  split at stored
  · cases stored
  · rename_i small
    refine ⟨(Option.some.inj stored).symm, ?_⟩
    have range := typed.2.2.2.2
    split at range
    · rename_i unsigned
      refine ⟨by omega, ?_⟩
      cases real : p.column.field.realType with
      | longlong =>
          simp only [real, unsigned, decide_true, Bool.true_and, decide_eq_true_eq] at small
          omega
      | set => exact absurd real noSet
      | other => exact below real
      | _ =>
          have top := range.2
          simpa only [TableField.top, real] using top
    · exact range

omit [Stoolap] [LawfulStoolap] in
/-- A text part the flags promise an order on, and no lookup filters, compares
bytes. -/
theorem compareText_bytes {keys : List (List Field)} {inx index : Nat} {trustBin : Bool}
    {values : Option Datum → Prop} (plain : Plain trustBin p values)
    (part : (keys[inx]?).bind (·[index]?) = some p.column.field)
    (ordered : (indexFlags keys inx index).readOrder = true) (safe : keyPartNeedsFilter p trustBin = false)
    (isString : p.column.field.realType.isString = true) (left right : List UInt8) :
    cmp.compareText p left right = compareBytes left right := by
  have sorts : sortsBytes p.column.field = true := by
    rw [← stringFlags_readOrder (plain.traditional isString), ← ordered, indexFlags, part]
    cases real : p.column.field.realType <;> simp_all [RealType.isString]
  have whole : p.isSegment = false := by
    cases segment : p.isSegment with
    | false => rfl
    | true => simp [keyPartNeedsFilter, segment] at safe
  have noPad : padSpace p.column.field = false := by
    cases trust : trustBin with
    | true => exact plain.trusted trust
    | false =>
        simp only [keyPartNeedsFilter, whole, isString, trust, Bool.false_eq_true, if_false, if_true] at safe
        simp only [padSpace]
        cases charset : p.column.field.charset with
        | none => rfl
        | some cs =>
            rw [charset] at safe
            cases binary : cs.isBinary <;> cases nopad : cs.nopad <;> simp_all
  simp only [Comparisons.compareText, isString, whole, sorts, noPad, Bool.not_false, Bool.and_self, if_true,
    Bool.false_eq_true, if_false]

/-- A part the flags promise an order on, and no lookup filters, stoolap orders
as MariaDB. -/
theorem compare_stored {keys : List (List Field)} {inx index : Nat} (lawful : cmp.Lawful) {trustBin : Bool}
    {values : Option Datum → Prop} (plain : Plain trustBin p values)
    (part : (keys[inx]?).bind (·[index]?) = some p.column.field)
    (ordered : (indexFlags keys inx index).readOrder = true) (safe : keyPartNeedsFilter p trustBin = false)
    {stored bound : Datum} {left right : Scalar} (storedTyped : Typed p.column stored)
    (boundTyped : Typed p.column bound) (storedValue : values (some stored)) (boundValue : values (some bound))
    (one : extractField p.column stored = some left) (two : extractField p.column bound = some right) :
    Stoolap.compare left right = cmp.compareDatum p stored bound := by
  have promised (real : p.column.field.realType = .newDecimal ∨ p.column.field.realType = .set) : False := by
    rw [indexFlags, part] at ordered
    rcases real with decimal | set <;> simp_all [IndexFlags.nothing]
  rcases storedTyped.kinds boundTyped with ⟨first, second, rfl, rfl⟩ | ⟨first, second, rfl, rfl⟩ | ⟨first, second, rfl, rfl⟩
  · have noSet : p.column.field.realType ≠ .set := fun set => promised (.inr set)
    obtain ⟨rfl, firstLow, firstHigh⟩ := signed_range storedTyped noSet (plain.below · first storedValue) one
    obtain ⟨rfl, secondLow, secondHigh⟩ := signed_range boundTyped noSet (plain.below · second boundValue) two
    rw [LawfulStoolap.compare_integer, ← compare_toInt, ofInt_toInt firstLow firstHigh, ofInt_toInt secondLow secondHigh]
    rfl
  · cases one
    cases two
    rw [Comparisons.compareDatum, lawful.real]
  · have isString : p.column.field.realType.isString = true :=
      storedTyped.resolve_right fun decimal => promised (.inl decimal)
    rw [Comparisons.compareDatum, compareText_bytes plain part ordered safe isString]
    cases one
    cases two
    rw [LawfulStoolap.compare_text]
    split
    · exact compareBytes_hexEncode first second
    · rfl

end Safe

section Bounds

variable [Stoolap] {h : Handler} {rows : List (Int64 × FieldRow)} {start stop : Option KeyRange}

def Handler.inRange (h : Handler) (start stop : Option KeyRange) (row : Int64 × FieldRow) : Prop :=
  InRange h.cmp h.parts start stop row.2.value

/-- A bound that leaves out no row of the range. -/
def Widens (h : Handler) (rows : List (Int64 × FieldRow)) (start stop : Option KeyRange) (bound : StoolapKeyBound) :
    Prop :=
  ∀ out, ∃ nodes exprs,
    boundNodes h.indexParts bound { record := bound.record, encode := h.encodeCell } out = .ok (true, out ++ nodes) ∧
      Standalone h.table.schema h.table.name nodes exprs ∧
      ∀ row ∈ rows, h.inRange start stop row → Holds (storedRow h.columns row).2 exprs

theorem readConds_widen {bounds : List StoolapKeyBound} (widen : ∀ bound ∈ bounds, Widens h rows start stop bound)
    (out : List Node) :
    ∃ nodes exprs, readConds h.indexParts h.encodeCell bounds out = .ok (some (out ++ nodes)) ∧
      Standalone h.table.schema h.table.name nodes exprs ∧
      ∀ row ∈ rows, h.inRange start stop row → Holds (storedRow h.columns row).2 exprs := by
  induction bounds generalizing out with
  | nil => exact ⟨[], [], by rw [List.append_nil]; rfl, Standalone.nil, fun _ _ _ => holds_nil⟩
  | cons bound bounds ih =>
      rw [List.forall_mem_cons] at widen
      obtain ⟨nodes, exprs, written, standalone, holds⟩ := widen.1 out
      obtain ⟨more, moreExprs, read, moreAlone, moreHolds⟩ := ih widen.2 (out ++ nodes)
      refine ⟨nodes ++ more, exprs ++ moreExprs, ?_, standalone.append moreAlone, fun row member within => ?_⟩
      · simp only [readConds, written, read, List.append_assoc]
      · exact (holds_append _ _).mpr ⟨holds row member within, moreHolds row member within⟩

/-- The first part of an end of the range. -/
def FirstCell (start stop : Option KeyRange) (cell : KeyCell) : Prop :=
  ∃ range, (range ∈ start ∨ range ∈ stop) ∧ range.cells.head? = some cell

/-- How a range's ends are restored: their values have the first part's type,
stoolap reads them from the record, or fails to where it needs a callback, and
equal bytes of two keys are one value. -/
structure Handler.RestoresFirst (h : Handler) (start stop : Option KeyRange) : Prop where
  typed : ∀ cell, FirstCell start stop cell → ∀ p ∈ h.parts.head?, ∀ datum, cell.value = some datum → Typed p.column datum
  reads : ∀ cell, FirstCell start stop cell → ∀ p ∈ h.parts.head?, ∀ f ∈ h.indexParts.head?,
    keyValue f { record := h.keyRestore [cell], encode := h.encodeCell } = .ok (keyValueOf p.column cell.value) ∨
      f.kind ≠ .varchar ∧ ∃ message, keyValue f { record := h.keyRestore [cell], encode := h.encodeCell } = .error message
  images : ∀ first last, FirstCell start stop first → FirstCell start stop last → first.image = last.image →
    first.value = last.value

/-- The values of the first part that a range read compares. -/
def firstValues (rows : List (Int64 × FieldRow)) (start stop : Option KeyRange) (p : KeyPart) (value : Option Datum) :
    Prop :=
  (∃ row ∈ rows, row.2.value p.column = value) ∨ ∃ cell, FirstCell start stop cell ∧ cell.value = value

/-- A bound of the leading part: one condition, or none for what stoolap cannot
bind. -/
theorem leading_standalone {p : KeyPart} {f : StoolapField} (described : Describes h.table.schema p f) {cell : KeyCell}
    {src : RecordIn} (typed : ∀ datum, cell.value = some datum → Typed p.column datum)
    (reads : keyValue f src = .ok (keyValueOf p.column cell.value) ∨ ∃ message, keyValue f src = .error message)
    (op : KeyOp) :
    (leadingNodes f op src = []) ∨ ∃ datum scalar, cell.value = some datum ∧ extractField p.column datum = some scalar ∧
      ∃ exprs, Standalone h.table.schema h.table.name (leadingNodes f op src) exprs ∧
        ∀ row : Row, Holds row exprs ↔
          if op = .le then
            (∃ stored, row.value f.columnIndex = some stored ∧ Stoolap.compare stored scalar ≠ .gt) ∨
              f.nullMask ≠ 0 ∧ row.value f.columnIndex = none
          else ∃ stored, row.value f.columnIndex = some stored ∧ Stoolap.compare stored scalar ≠ .lt := by
  rcases reads with reads | ⟨message, reads⟩
  · cases value : cell.value with
    | none =>
        rw [value] at reads
        exact .inl (by simp only [leadingNodes, reads, keyValueOf])
    | some datum =>
        rw [value] at reads
        cases extracted : extractField p.column datum with
        | none => exact .inl (by simp only [leadingNodes, reads, keyValueOf, extracted])
        | some scalar =>
            refine .inr ⟨datum, scalar, rfl, extracted, ?_⟩
            simp only [keyValueOf, extracted] at reads
            have cast := described.casts datum scalar (typed datum value) extracted _
              (List.getElem?_eq_getElem described.inSchema)
            have compared (op : KeyOp) : Standalone h.table.schema h.table.name [cond f (condOp op) (some scalar)]
                [.comparison f.columnIndex op.operator (some scalar)] := by
              have built := @condExpression_compared _ h.table.schema h.table.name f described.inSchema op (some scalar)
              rw [cast] at built
              exact Standalone.cond built
            have takes (op : KeyOp) (row : Row) :
                Expression.eval row (.comparison f.columnIndex op.operator (some scalar)) = some true ↔
                  ∃ stored, row.value f.columnIndex = some stored ∧
                    op.operator.holds (Stoolap.compare stored scalar) = true := by
              rw [Expression.eval]
              cases row.value f.columnIndex <;> simp [compareValue]
            by_cases upper : op = .le
            · simp only [upper, leadingNodes, reads, if_true]
              by_cases nullable : f.nullMask ≠ 0
              · rw [if_pos nullable]
                refine ⟨_, ((compared .le).append (standalone_isNull described.inSchema)).join_or (by simp), fun row => ?_⟩
                rw [holds_singleton, Expression.eval_or]
                simp only [List.cons_append, List.nil_append, List.mem_cons, List.not_mem_nil, or_false, exists_eq_or_imp,
                  exists_eq_left, takes]
                simp [KeyOp.operator, Operator.holds, nullable, Expression.eval]
              · rw [if_neg nullable]
                refine ⟨_, compared .le, fun row => ?_⟩
                rw [holds_singleton, takes]
                simp [KeyOp.operator, Operator.holds, nullable]
            · simp only [upper, leadingNodes, reads, if_false]
              refine ⟨_, compared .ge, fun row => ?_⟩
              rw [holds_singleton, takes]
              simp [KeyOp.operator, Operator.holds]
  · exact .inl (by simp only [leadingNodes, reads])

/-- The first part as a range read finds it: the index's, its description, and
values a NOT NULL column has. -/
structure Leads (h : Handler) (rows : List (Int64 × FieldRow)) (p : KeyPart) (f : StoolapField) : Prop where
  part : h.parts.head? = some p
  field : h.indexParts.head? = some f
  notNull : f.nullMask = 0 → ∀ row ∈ rows, row.2.value p.column ≠ none

omit [Stoolap] in
theorem indexParts_head {f : StoolapField} (field : h.indexParts.head? = some f) (bound : StoolapKeyBound)
    (one : bound.nparts = 1) : boundParts h.indexParts bound = [f] := by
  cases found : h.indexParts with
  | nil => simp [found] at field
  | cons first rest =>
      have same : first = f := by simpa [found] using field
      rw [boundParts, one, same]
      rfl

/-- A leading bound keeps every row that is not beyond it on the first part, a
NULL one with an upper bound included. -/
theorem leading_widens {p : KeyPart} {f : StoolapField} (indexed : h.Indexed rows) (leads : Leads h rows p f)
    (described : Describes h.table.schema p f) {cell : KeyCell} {op : KeyOp}
    (typed : ∀ datum, cell.value = some datum → Typed p.column datum)
    (reads : keyValue f { record := h.keyRestore [cell], encode := h.encodeCell } = .ok (keyValueOf p.column cell.value) ∨
      ∃ message, keyValue f { record := h.keyRestore [cell], encode := h.encodeCell } = .error message)
    (compares : ∀ row ∈ rows, ∀ stored bound left right, row.2.value p.column = some stored → cell.value = some bound →
      extractField p.column stored = some left → extractField p.column bound = some right →
      Stoolap.compare left right = h.cmp.compareDatum p stored bound)
    (ends : ∀ row ∈ rows, h.inRange start stop row →
      h.cmp.comparePart p (row.2.value p.column) cell.value ≠ if op = .le then .gt else .lt) :
    Widens h rows start stop
      { record := h.keyRestore [cell], nparts := 1, op, skip := 0, pad := 0, mode := .leading } := by
  intro out
  have isPart : p ∈ h.parts := List.mem_of_mem_head? leads.part
  have written : boundNodes h.indexParts
      { record := h.keyRestore [cell], nparts := 1, op, skip := 0, pad := 0, mode := .leading }
      { record := h.keyRestore [cell], encode := h.encodeCell } out =
      .ok (true, out ++ leadingNodes f op { record := h.keyRestore [cell], encode := h.encodeCell }) := by
    rw [boundNodes, indexParts_head leads.field _ rfl]
    simp only [if_true]
  rw [written]
  rcases leading_standalone described typed reads op with empty | ⟨bound, right, value, extracted, exprs, standalone, meaning⟩
  · rw [empty]
    exact ⟨[], [], rfl, Standalone.nil, fun _ _ _ => holds_nil⟩
  · refine ⟨_, exprs, rfl, standalone, fun row member within => ?_⟩
    rw [meaning, described.column, storedRow_value (indexed.found p isPart)]
    have order := ends row member within
    rw [value] at order
    cases stored : row.2.value p.column with
    | none =>
        by_cases upper : op = .le
        · rw [if_pos upper]
          exact .inr ⟨fun notNull => leads.notNull notNull row member stored, rfl⟩
        · rw [stored, if_neg upper] at order
          exact absurd rfl order
    | some datum =>
        obtain ⟨-, holds⟩ := indexed.held row member p isPart datum stored
        obtain ⟨left, one⟩ := Option.isSome_iff_exists.mp holds
        rw [stored, Comparisons.comparePart, ← compares row member datum bound left right stored value one extracted] at order
        rw [Option.bind_some, one]
        by_cases upper : op = .le
        · rw [if_pos upper] at order ⊢
          exact .inl ⟨left, rfl, order⟩
        · rw [if_neg upper] at order ⊢
          exact ⟨left, rfl, order⟩

omit [Stoolap] in
/-- Only a session that leaves padded strings to MariaDB looks them up. -/
theorem keyPartPads_untrusted {p : KeyPart} {trustBin : Bool} (pads : keyPartPads p trustBin = true) :
    keyPartPads p false = true := by
  cases trustBin with
  | false => exact pads
  | true =>
      cases charset : p.column.field.charset <;> cases segment : p.isSegment <;>
        simp_all [keyPartPads, keyPartNeedsFilter]

/-- The lookup of a padded first part that the ends share keeps every row of
the range. -/
theorem pad_widens [LawfulStoolap] {p : KeyPart} {f : StoolapField} (indexed : h.Indexed rows) (leads : Leads h rows p f)
    (described : Describes h.table.schema p f) {cell : KeyCell}
    (typed : ∀ datum, cell.value = some datum → Typed p.column datum)
    (reads : f.kind = .varchar →
      keyValue f { record := h.keyRestore [cell], encode := h.encodeCell } = .ok (keyValueOf p.column cell.value))
    (pads : keyPartPads p false = true) (fitting : h.Fitting rows)
    (shared : ∀ row ∈ rows, h.inRange start stop row →
      h.cmp.comparePart p (row.2.value p.column) cell.value = .eq) :
    Widens h rows start stop
      { record := h.keyRestore [cell], nparts := 1, op := .eq, skip := 1, pad := 1, mode := .key } := by
  intro out
  have isPart : p ∈ h.parts := List.mem_of_mem_head? leads.part
  have filtered : keyPartNeedsFilter p false = true := by
    simp only [keyPartPads, Bool.and_eq_true] at pads
    exact pads.1.1
  have bit : partBit 1 0 = true := by decide
  obtain ⟨nodes, exprs, written, standalone, meaning⟩ := @lookup_filtered _ h.table.schema _ h.table.name out
    { record := h.keyRestore [cell], nparts := 1, op := .eq, skip := 1, pad := 1, mode := .key }
    { record := h.keyRestore [cell], encode := h.encodeCell } 0 ⟨p, f, cell.value⟩ [] out described reads typed filtered bit
    (by rw [bit, pads])
  refine ⟨nodes, exprs, ?_, standalone, fun row member within => ?_⟩
  · rw [boundNodes, indexParts_head leads.field _ rfl]
    simp only [reduceCtorEq, if_false, false_and]
    rw [written]
    rfl
  · have zipped : (p, f) ∈ h.parts.zip h.indexParts := by
      cases parts : h.parts with
      | nil => simp [parts] at isPart
      | cons first others =>
          cases fields : h.indexParts with
          | nil =>
              have field := leads.field
              simp [fields] at field
          | cons own fields' =>
              have part := leads.part
              have field := leads.field
              simp only [parts, fields, List.head?_cons, Option.some.injEq] at part field
              rw [part, field]
              exact List.mem_cons_self
    have held := indexed.held row member p isPart
    have value : (storedRow h.columns row).2.value f.columnIndex =
        (row.2.value p.column).bind (extractField p.column) := by
      rw [described.column]
      exact storedRow_value (indexed.found p isPart) row
    have equal := candidate_of_equal (f := f) indexed.lawful described (fun exact => by simp [exact] at filtered) held typed
      (fitting row member _ zipped) (shared row member within)
    rw [meaning _ ?_, value]
    · exact equal
    · rw [value]
      exact @textOrNull_held _ h.table.schema ⟨p, f, cell.value⟩ _ described held

omit [Stoolap] in
theorem partIs_head {parts : List KeyPart} {property : KeyPart → Bool} (first : partIs parts property 0 = true) :
    ∃ p, parts.head? = some p ∧ property p = true := by
  cases parts with
  | nil => cases first
  | cons p parts => exact ⟨p, rfl, first⟩

/-- Columns declared NOT NULL have no NULL. -/
def Handler.NotNulls (h : Handler) (rows : List (Int64 × FieldRow)) : Prop :=
  ∀ part ∈ h.parts.zip h.indexParts, part.2.nullMask = 0 → ∀ row ∈ rows, row.2.value part.1.column ≠ none

theorem Handler.Indexed.leads (indexed : h.Indexed rows) (notNulls : h.NotNulls rows) {p : KeyPart}
    (part : h.parts.head? = some p) : ∃ f, Leads h rows p f ∧ Describes h.table.schema p f := by
  have described := indexed.described
  cases parts : h.parts with
  | nil => simp [parts] at part
  | cons first others =>
      have same : first = p := by simpa [parts] using part
      subst same
      cases fields : h.indexParts with
      | nil =>
          rw [parts, fields] at described
          cases described
      | cons f rest =>
          rw [parts, fields] at described
          have zipped : (first, f) ∈ h.parts.zip h.indexParts := by
            rw [parts, fields]
            exact List.mem_cons_self
          refine ⟨f, ⟨part, by rw [fields, List.head?_cons], notNulls _ zipped⟩, ?_⟩
          exact (List.forall₂_cons.mp described).1

omit [Stoolap] in
theorem Handler.parts_keys {p : KeyPart} (part : h.parts.head? = some p) :
    ((h.keys.map fun info => info.parts.map fun p => p.column.field)[h.activeIndex]?).bind (·[0]?) =
      some p.column.field := by
  rw [Handler.parts] at part
  rw [List.getElem?_map]
  cases active : h.keys[h.activeIndex]? with
  | none => simp [active] at part
  | some info =>
      rw [active, Option.map_some, Option.getD_some, List.head?_eq_getElem?] at part
      rw [Option.map_some, Option.bind_some, List.getElem?_map, part, Option.map_some]

/-- An end's bound on a first part that is safe. -/
theorem leadingBound_widens [LawfulStoolap] {p : KeyPart} {f : StoolapField} (indexed : h.Indexed rows)
    (leads : Leads h rows p f) (described : Describes h.table.schema p f) (restores : h.RestoresFirst start stop)
    (safe : h.partSafe 0 = true) (plain : Plain h.trustBin p (firstValues rows start stop p)) {range : Option KeyRange}
    (own : ∀ given ∈ range, given ∈ start ∨ given ∈ stop) {op : KeyOp}
    (ends : ∀ given ∈ range, ∀ cell cells, given.cells = cell :: cells → ∀ row ∈ rows, h.inRange start stop row →
      h.cmp.comparePart p (row.2.value p.column) cell.value ≠ if op = .le then .gt else .lt) :
    ∀ bound ∈ h.leadingBound range op, Widens h rows start stop bound := by
  intro bound member
  obtain ⟨ordered, unfiltered⟩ := (Bool.and_eq_true _ _).mp safe
  obtain ⟨p', part, exact⟩ := partIs_head unfiltered
  obtain rfl : p' = p := Option.some.inj (part.symm.trans leads.part)
  have isPart : p' ∈ h.parts := List.mem_of_mem_head? part
  cases range with
  | none => cases member
  | some given =>
      obtain ⟨cells, flag⟩ := given
      cases cells with
      | nil => cases member
      | cons cell cells =>
          simp only [Handler.leadingBound, List.mem_singleton] at member
          subst member
          have isFirst : FirstCell start stop cell := ⟨_, own _ rfl, rfl⟩
          refine leading_widens indexed leads described (restores.typed cell isFirst p' part)
            ((restores.reads cell isFirst p' part f leads.field).imp_right And.right) ?_ (ends _ rfl cell cells rfl)
          intro row inRows stored bound left right storedIs boundIs one two
          refine compare_stored indexed.lawful plain (Handler.parts_keys part) ordered (by simpa using exact)
            (indexed.held row inRows p' isPart stored storedIs).1 (restores.typed cell isFirst p' part bound boundIs)
            (.inl ⟨row, inRows, storedIs⟩) (.inr ⟨cell, isFirst, boundIs⟩) one two

/-- The parts the ends share byte for byte: the first one is one value. -/
theorem rangeConst_first {first : KeyCell} {firsts : List KeyCell} {flag : FindFlag}
    (restores : h.RestoresFirst (some ⟨first :: firsts, flag⟩) stop)
    (shared : 0 < h.rangeConst (some ⟨first :: firsts, flag⟩) stop) :
    ∃ range last lasts, stop = some range ∧ range.cells = last :: lasts ∧ last.value = first.value := by
  cases stop with
  | none => cases shared
  | some range =>
      obtain ⟨cells, endFlag⟩ := range
      cases count : h.parts.length with
      | zero => simp [Handler.rangeConst, count, Handler.constPrefix] at shared
      | succ count' =>
          cases cells with
          | nil => simp [Handler.rangeConst, count, Handler.constPrefix] at shared
          | cons last lasts =>
              simp only [Handler.rangeConst, count, List.take_succ_cons, Handler.constPrefix] at shared
              split at shared
              · rename_i images
                have same := restores.images first last ⟨_, .inl rfl, rfl⟩ ⟨_, .inr rfl, rfl⟩ images
                exact ⟨_, last, lasts, rfl, rfl, same.symm⟩
              · cases shared

/-- No bound of a range read leaves out a row of the range. -/
theorem rangeBounds_widen [LawfulStoolap] (indexed : h.Indexed rows) (fitting : h.Fitting rows)
    (notNulls : h.NotNulls rows) (restores : h.RestoresFirst start stop)
    (plain : h.partSafe 0 = true → ∀ p ∈ h.parts.head?, Plain h.trustBin p (firstValues rows start stop p)) :
    ∀ bound ∈ h.rangeBounds start stop (h.rangeConst start stop), Widens h rows start stop bound := by
  have within {p : KeyPart} (part : h.parts.head? = some p) : ∃ others, h.parts = p :: others := by
    obtain ⟨others, same⟩ := List.head?_eq_some_iff.mp part
    exact ⟨others, same⟩
  intro bound member
  unfold Handler.rangeBounds at member
  split at member
  · rename_i safe
    obtain ⟨p, part, -⟩ := partIs_head ((Bool.and_eq_true _ _).mp safe).2
    obtain ⟨f, leads, described⟩ := indexed.leads notNulls part
    obtain ⟨others, parts⟩ := within part
    rcases List.mem_append.mp member with lower | upper
    · refine leadingBound_widens indexed leads described restores safe (plain safe p part) (fun _ => .inl) ?_ bound lower
      intro given mem cell cells key row _ inside
      cases mem
      rw [Handler.inRange, parts] at inside
      exact inside.first key
    · refine leadingBound_widens indexed leads described restores safe (plain safe p part) (fun _ => .inr) ?_ bound upper
      intro given mem cell cells key row _ inside
      cases mem
      rw [Handler.inRange, parts] at inside
      exact inside.last key
  · rcases start with _ | ⟨_ | ⟨first, firsts⟩, flag⟩
    · cases member
    · cases member
    · simp only at member
      split at member
      · rename_i padded
        obtain ⟨positive, pads⟩ := (Bool.and_eq_true _ _).mp padded
        obtain ⟨p, part, pads⟩ := partIs_head pads
        obtain ⟨f, leads, described⟩ := indexed.leads notNulls part
        obtain ⟨others, parts⟩ := within part
        obtain ⟨range, last, lasts, rfl, key, same⟩ := rangeConst_first restores (of_decide_eq_true positive)
        have isFirst : FirstCell (some ⟨first :: firsts, flag⟩) (some range) first := ⟨_, .inl rfl, rfl⟩
        rw [List.mem_singleton] at member
        subst member
        refine pad_widens indexed leads described (restores.typed first isFirst p part) ?_ (keyPartPads_untrusted pads)
          fitting fun row _ inside => ?_
        · intro isVarchar
          exact (restores.reads first isFirst p part f leads.field).resolve_right fun no => no.1 isVarchar
        · rw [Handler.inRange, parts] at inside
          have low := inside.first rfl
          have high := inside.last key
          rw [same] at high
          cases order : h.cmp.comparePart p (row.2.value p.column) first.value with
          | lt => exact absurd order low
          | gt => exact absurd order high
          | eq => rfl
      · cases member

omit [Stoolap] in
theorem rangeOrder_lt (indexed : ∀ p ∈ h.parts, h.columns[p.column.field.fieldIndex]? = some p.column) (const : Nat)
    {indexes : List Nat} (inParts : ∀ index ∈ indexes, index < h.parts.length) :
    ∀ column ∈ h.rangeOrder const indexes, column < h.columns.length := by
  induction indexes with
  | nil => exact fun column member => by cases member
  | cons index rest ih =>
      intro column member
      rw [List.forall_mem_cons] at inParts
      rw [Handler.rangeOrder] at member
      split at member
      · exact ih inParts.2 column member
      · split at member
        · rcases List.mem_cons.mp member with rfl | later
          · exact columnOf_lt indexed inParts.1
          · exact ih inParts.2 column later
        · cases member

/-- The rows MariaDB's key order puts in the range. -/
def Handler.within (h : Handler) (start stop : Option KeyRange) (row : Int64 × FieldRow) : Bool :=
  rangeInBounds h.cmp h.parts start stop row.2.value

theorem keeps_range (indexed : h.Indexed rows) {row : Int64 × FieldRow} (member : row ∈ rows) :
    h.keeps (.range start stop) (storedRow h.columns row).2 = h.within start stop row := by
  have same (key : List (Option Datum)) : h.cmp.keyCmp h.parts key (recordValue (storedRow h.columns row).2) =
      h.cmp.keyCmp h.parts key row.2.value :=
    keyCmp_congr h.cmp fun p isPart => recordValue_storedRow (indexed.found p isPart) (indexed.held row member p isPart)
  rw [Bool.eq_iff_iff, Handler.keeps, Handler.within, rangeInBounds_iff, rangeInBounds_iff]
  simp only [InRange, same]

/-- A filtered range read gives the rows within both ends by MariaDB's key
order, each once. Its bounds only widen: the conditions take every row of the
range, one that cannot be bound is no condition, an upper one takes NULLs. -/
theorem filtered_range_delivers [LawfulStoolap] (indexed : h.Indexed rows) (fitting : h.Fitting rows)
    (notNulls : h.NotNulls rows) (restores : h.RestoresFirst start stop)
    (plain : h.partSafe 0 = true → ∀ p ∈ h.parts.head?, Plain h.trustBin p (firstValues rows start stop p))
    (sorted : Bool) :
    (∃ delivered : List (Int64 × FieldRow), delivered.Perm (rows.filter (h.within start stop)) ∧
        ∀ fuel, rows.length < fuel → h.rangeRows fuel start stop sorted = some (delivered.map (storedRow h.columns))) ∧
      (∃ nodes exprs,
        readConds h.indexParts h.encodeCell (h.rangeBounds start stop (h.rangeConst start stop)) [] = .ok (some nodes) ∧
          buildExpressions h.table.schema h.table.name nodes [] = .ok exprs ∧
          ∀ row ∈ rows, h.within start stop row = true → Holds (storedRow h.columns row).2 exprs) ∧
      (∀ f op src, (keyValue f src = .ok .null ∨ keyValue f src = .ok .beyond ∨ ∃ message, keyValue f src = .error message) →
        leadingNodes f op src = []) ∧
      ∀ p ∈ h.parts.head?, ∀ f ∈ h.indexParts.head?, f.nullMask ≠ 0 → ∀ cell, FirstCell start stop cell →
        ∃ exprs, Standalone h.table.schema h.table.name
            (leadingNodes f .le { record := h.keyRestore [cell], encode := h.encodeCell }) exprs ∧
          ∀ row : Row, row.value f.columnIndex = none → Holds row exprs := by
  have widen := rangeBounds_widen indexed fitting notNulls restores plain
  obtain ⟨nodes, exprs, read, standalone, holds⟩ := readConds_widen widen []
  rw [List.nil_append] at read
  have takes {row : Int64 × FieldRow} (member : row ∈ rows) (inside : h.within start stop row = true) :
      Holds (storedRow h.columns row).2 exprs := holds row member (rangeInBounds_iff.mp inside)
  refine ⟨?_, ⟨nodes, exprs, read, standalone.builds, fun row member => takes member⟩, fun f op src none_ => ?_,
    fun p part f field nullable cell isFirst => ?_⟩
  · obtain ⟨order, ordered, columns⟩ : ∃ order, order =
        (if sorted then h.rangeOrder (h.rangeConst start stop) (List.range h.parts.length) else []) ∧
        ∀ column ∈ order, column < h.columns.length := by
      refine ⟨_, rfl, fun column member => ?_⟩
      split at member
      · exact rangeOrder_lt indexed.found _ (fun index => List.mem_range.mp) column member
      · cases member
    obtain ⟨source, found, opened, delivers, perm⟩ := Handler.openRead_delivers indexed false columns read standalone.builds
    obtain ⟨delivered, rowsOf, spelled⟩ := @Handler.rows_of_found _ h rows exprs (.range start stop) found
      (h.within start stop) perm fun row member => by
        rw [Bool.eq_iff_iff, Bool.and_eq_true, taken_iff, keeps_range indexed member]
        exact and_iff_right_of_imp (takes member)
    refine ⟨delivered, rowsOf, fun fuel enough => ?_⟩
    have fewer : found.length ≤ rows.length := by
      rw [perm.length_eq]
      exact (List.length_filter_le _ _).trans_eq (List.length_map _)
    rw [Handler.rangeRows, Handler.readRangeFiltered, ← ordered]
    simp only [opened]
    rw [Handler.rowsFrom_delivers (.range start stop) delivers (fewer.trans_lt enough) (fewer.trans_lt enough), spelled]
  · rcases none_ with null | beyond | ⟨message, failed⟩
    · simp only [leadingNodes, null]
    · simp only [leadingNodes, beyond]
    · simp only [leadingNodes, failed]
  · obtain ⟨f', leads, described⟩ := indexed.leads notNulls part
    obtain rfl : f' = f := Option.some.inj (leads.field.symm.trans field)
    rcases leading_standalone described (restores.typed cell isFirst p part)
      ((restores.reads cell isFirst p part f' field).imp_right And.right) .le with
      empty | ⟨datum, scalar, -, -, exprs, standalone, meaning⟩
    · rw [empty]
      exact ⟨[], Standalone.nil, fun _ _ => holds_nil⟩
    · exact ⟨exprs, standalone, fun row null => (meaning row).mpr (.inr ⟨nullable, null⟩)⟩

end Bounds

/-- An index on a VARCHAR(2) in `utf8mb4_bin` and a DECIMAL. -/
def priceColumns : List TableField :=
  [⟨textField, false⟩, ⟨⟨.newDecimal, none, true, 1⟩, false⟩]

def priceInfo : KeyInfo := ⟨priceColumns.map (⟨·, false⟩), false⟩

def priceParts : List StoolapField :=
  [{ column := 0, kind := .varchar, offset := 1, nullOffset := 0, nullMask := 1, length := 1, maxChars := 2,
     isUnsigned := false, field := 0, packLength := 9 },
   { column := 1, kind := .store, offset := 10, nullOffset := 0, nullMask := 0, length := 1, maxChars := 0,
     isUnsigned := false, field := 1, packLength := 1 }]

def priceSchema : Schema where
  columns := [{ name := "s", dataType := .text }, { name := "d", dataType := .text }]
  pkColumn := none

def priceRow (text : List UInt8) (digit : UInt8) : FieldRow := [some (.text text), some (.text [digit])]

def priceRecord (cells : List KeyCell) : RecordBuffer := fun offset => (0 :: cells.flatMap KeyCell.image).getD offset 0

def priceHandler (trustBin : Bool) (rows : List (Int64 × FieldRow)) : Handler where
  table := @TableView.ofRows Stoolap.reference "t" priceSchema (rows.map (storedRow priceColumns))
  columns := priceColumns
  keys := [priceInfo]
  activeIndex := 0
  indexSorted := true
  indexParts := priceParts
  keyRestore := priceRecord
  encodeCell := none
  cmp := sampleComparisons
  trustBin
  readFields := [0, 1]
  fixed := false
  constKeyParts _ := false

def priceCell (text : UInt8) : KeyCell := ⟨[1, text, 0, 0, 0, 0, 0, 0, 0], some (.text [text])⟩

/-- The key `(text, digit)`, for one ASCII character and one digit. -/
def priceKey (text digit : UInt8) (flag : FindFlag) : KeyRange where
  cells := [priceCell text, ⟨[digit], some (.text [digit])⟩]
  flag

theorem priceCell_reads {text : UInt8} (spelled : text = 0x77 ∨ text = 0x78) {f : StoolapField}
    (field : priceParts.head? = some f) :
    @keyValue Stoolap.reference f { record := priceRecord [priceCell text], encode := none } =
      .ok (.value (some (.text [text]))) := by
  cases field
  rcases spelled with rfl | rfl <;> rfl

theorem priceRow_held (text : List UInt8) (digit : UInt8) :
    ∀ p ∈ priceInfo.parts, Held p.column ((priceRow text digit).value p.column) := by
  intro p member datum same
  simp only [priceInfo, priceColumns, List.map_cons, List.map_nil, List.mem_cons, List.not_mem_nil, or_false] at member
  rcases member with rfl | rfl
  · cases same
    exact ⟨.inl rfl, rfl⟩
  · cases same
    exact ⟨.inr rfl, rfl⟩

theorem priceHandler_indexed {trustBin : Bool} {rows : List (Int64 × FieldRow)}
    (held : ∀ row ∈ rows, ∀ p ∈ priceInfo.parts, Held p.column (row.2.value p.column)) :
    @Handler.Indexed Stoolap.reference (priceHandler trustBin rows) rows := by
  let reference := Stoolap.reference
  have lawful := Stoolap.reference_lawful
  exact
    { key := ⟨priceInfo, rfl⟩
      limit := (by decide : priceInfo.parts.length ≤ 32)
      described :=
        .cons
          { column := rfl, inSchema := (by decide : InSchema priceSchema _), varchar := fun _ => ⟨rfl, rfl, rfl⟩,
            casts := by
              intro datum scalar typed stored column here
              cases here
              rfl }
          (.cons
            { column := rfl, inSchema := (by decide : InSchema priceSchema _), varchar := nofun,
              casts := by
                intro datum scalar typed stored column here
                cases here
                rfl } .nil)
      found := by
        intro p member
        simp only [Handler.parts, priceHandler, List.getElem?_cons_zero, Option.map_some, Option.getD_some, priceInfo,
          priceColumns, List.map_cons, List.map_nil, List.mem_cons, List.not_mem_nil, or_false] at member
        rcases member with rfl | rfl <;> rfl
      count := rfl
      readFields := (by decide : ∀ column ∈ [0, 1], column < priceSchema.columns.length)
      held
      serves := TableView.ofRows_serves "t" rfl _
      lawful := sampleComparisons_lawful }

theorem priceHandler_fitting {trustBin : Bool} {rows : List (Int64 × FieldRow)}
    (short : ∀ row ∈ rows, ∃ text digit, row.2 = priceRow text digit ∧ charCount text ≤ 2) :
    (priceHandler trustBin rows).Fitting rows := by
  intro row member part zipped pads text same
  obtain ⟨own, digit, spelled, few⟩ := short row member
  have parts : (priceHandler trustBin rows).parts.zip (priceHandler trustBin rows).indexParts =
      priceInfo.parts.zip priceParts := rfl
  rw [parts] at zipped
  simp only [priceInfo, priceColumns, priceParts, List.map_cons, List.map_nil, List.zip_cons_cons, List.zip_nil_right,
    List.mem_cons, List.not_mem_nil, or_false] at zipped
  rcases zipped with rfl | rfl
  · rw [spelled] at same
    cases same
    exact few
  · cases pads

theorem priceHandler_notNulls {trustBin : Bool} {rows : List (Int64 × FieldRow)}
    (spelled : ∀ row ∈ rows, ∃ text digit, row.2 = priceRow text digit) :
    (priceHandler trustBin rows).NotNulls rows := by
  intro part zipped notNull row member none_
  obtain ⟨text, digit, same⟩ := spelled row member
  have parts : (priceHandler trustBin rows).parts.zip (priceHandler trustBin rows).indexParts =
      priceInfo.parts.zip priceParts := rfl
  rw [parts] at zipped
  simp only [priceInfo, priceColumns, priceParts, List.map_cons, List.map_nil, List.zip_cons_cons, List.zip_nil_right,
    List.mem_cons, List.not_mem_nil, or_false] at zipped
  rw [same] at none_
  rcases zipped with rfl | rfl <;> cases none_

theorem priceKeys_restored (trustBin : Bool) (rows : List (Int64 × FieldRow)) {low high : UInt8}
    (lowIs : low = 0x77 ∨ low = 0x78) (highIs : high = 0x78) (one two : UInt8) :
    @Handler.RestoresFirst Stoolap.reference (priceHandler trustBin rows) (some (priceKey low one .keyOrNext))
      (some (priceKey high two .afterKey)) := by
  have firsts {cell : KeyCell}
      (first : FirstCell (some (priceKey low one .keyOrNext)) (some (priceKey high two .afterKey)) cell) :
      ∃ text, (text = 0x77 ∨ text = 0x78) ∧ cell = priceCell text := by
    obtain ⟨range, own, head⟩ := first
    rcases own with own | own
    · cases own
      cases head
      exact ⟨low, lowIs, rfl⟩
    · cases own
      cases head
      exact ⟨high, .inr highIs, rfl⟩
  refine @Handler.RestoresFirst.mk Stoolap.reference _ _ _ (fun cell first p part datum same => ?_)
    (fun cell first p part f field => .inl ?_) fun one two first last same => ?_
  · obtain ⟨text, -, rfl⟩ := firsts first
    cases part
    cases same
    exact .inl rfl
  · obtain ⟨text, spelled, rfl⟩ := firsts first
    cases part
    exact priceCell_reads spelled field
  · obtain ⟨text, -, rfl⟩ := firsts first
    obtain ⟨other, -, rfl⟩ := firsts last
    simp only [priceCell, List.cons.injEq, true_and, and_true] at same
    rw [same]

/-- A session that trusts bytes loses `('x\t', 9)` between `('w', 1)` and
`('x', 5)`: the tab is before a space and past the end of 'x'. -/
theorem trusted_range_loses_row :
    let rows := [((1 : Int64), priceRow [0x78, 0x09] 0x39)]
    let h := priceHandler true rows
    let start := some (priceKey 0x77 0x31 .keyOrNext)
    let stop := some (priceKey 0x78 0x35 .afterKey)
    @Handler.Indexed Stoolap.reference h rows ∧ h.Fitting rows ∧ h.NotNulls rows ∧
      @Handler.RestoresFirst Stoolap.reference h start stop ∧ rows.filter (h.within start stop) = rows ∧
      @Handler.rangeRows h Stoolap.reference 2 start stop false = some [] := by
  have spelled : ∀ row ∈ [((1 : Int64), priceRow [0x78, 0x09] 0x39)],
      ∃ text digit, row.2 = priceRow text digit ∧ charCount text ≤ 2 := by
    intro row member
    rw [List.mem_singleton] at member
    subst member
    exact ⟨_, _, rfl, by decide⟩
  refine ⟨priceHandler_indexed fun row member => ?_, priceHandler_fitting spelled, priceHandler_notNulls fun row member => ?_,
    priceKeys_restored true _ (.inl rfl) rfl 0x31 0x35, rfl, rfl⟩
  · obtain ⟨text, digit, same, -⟩ := spelled row member
    rw [same]
    exact priceRow_held text digit
  · obtain ⟨text, digit, same, -⟩ := spelled row member
    exact ⟨text, digit, same⟩

def priceRows : List (Int64 × FieldRow) :=
  [(1, priceRow [0x78] 0x33), (2, priceRow [0x78, 0x20] 0x34), (3, priceRow [0x78, 0x09] 0x39)]

theorem priceRows_spelled : ∀ row ∈ priceRows, ∃ text digit, row.2 = priceRow text digit ∧ charCount text ≤ 2 := by
  intro row member
  simp only [priceRows, List.mem_cons, List.not_mem_nil, or_false] at member
  rcases member with rfl | rfl | rfl
  · exact ⟨_, _, rfl, by decide⟩
  · exact ⟨_, _, rfl, by decide⟩
  · exact ⟨_, _, rfl, by decide⟩

/-- Between `('x', 1)` and `('x', 5)` lie `('x', 3)` and `('x ', 4)`. -/
theorem filtered_range_delivers_sample :
    ∃ delivered : List (Int64 × FieldRow),
      delivered.Perm [(1, priceRow [0x78] 0x33), (2, priceRow [0x78, 0x20] 0x34)] ∧
      ∀ fuel, 3 < fuel → @Handler.rangeRows (priceHandler false priceRows) Stoolap.reference fuel
        (some (priceKey 0x78 0x31 .keyOrNext)) (some (priceKey 0x78 0x35 .afterKey)) true =
        some (delivered.map (storedRow priceColumns)) := by
  have range := @filtered_range_delivers Stoolap.reference (priceHandler false priceRows) priceRows
    (some (priceKey 0x78 0x31 .keyOrNext)) (some (priceKey 0x78 0x35 .afterKey)) Stoolap.reference_lawful
    (priceHandler_indexed fun row member => by
      obtain ⟨text, digit, same, -⟩ := priceRows_spelled row member
      rw [same]
      exact priceRow_held text digit)
    (priceHandler_fitting priceRows_spelled)
    (priceHandler_notNulls fun row member => by
      obtain ⟨text, digit, same, -⟩ := priceRows_spelled row member
      exact ⟨text, digit, same⟩)
    (priceKeys_restored false priceRows (.inr rfl) rfl 0x31 0x35)
    (fun safe => absurd safe (by decide))
    true
  exact range.1

end StoolapMariadb.KeyRead
