import StoolapMariadb.Types
import StoolapMariadb.CursorOrder

namespace StoolapMariadb.Index

open StoolapMariadb.Types StoolapMariadb.Read Sorting

/-! Which indexes promise MariaDB an order, and the order their reads
deliver: stoolap sorts the stored values, MariaDB compares its own. -/

structure IndexFlags where
  readNext : Bool
  readRange : Bool
  readOrder : Bool
  keyScanNotRor : Bool
deriving DecidableEq

def IndexFlags.nothing : IndexFlags := ⟨false, false, false, false⟩

def IndexFlags.full : IndexFlags := ⟨true, true, true, true⟩

/-- A string part: its collation sorts bytes, and a hex-stored one keeps its
order. -/
def stringFlags (f : Field) : IndexFlags :=
  if fieldEnc f = .hex && !hexKeepsOrder f then .nothing
  else
    match f.charset with
    | some cs => if cs.binsort then .full else .nothing
    | none => .nothing

/-- `ha_stoolap::index_flags` over the table's keys, each the fields of its
parts. -/
def indexFlags (keys : List (List Field)) (inx part : Nat) : IndexFlags :=
  match (keys[inx]?).bind (·[part]?) with
  | none => .full
  | some f =>
      match f.realType with
      | .varchar | .varString | .string | .tinyBlob | .blob | .mediumBlob | .longBlob => stringFlags f
      | .newDecimal | .enum | .set => .nothing
      | _ => .full

/-- A MariaDB row: each field's value by field index. -/
abbrev MariaRow := List (Option FieldValue)

def MariaRow.value (row : MariaRow) (f : Field) : Option FieldValue := (row[f.fieldIndex]?).join

/-- The row stoolap holds. -/
def encodeRow (fields : List Field) (row : MariaRow) : Row :=
  List.zipWith (fun f value => value.map (encodeField f)) fields row

def storedRow (fields : List Field) (row : Int64 × MariaRow) : IdRow := (row.1, encodeRow fields row.2)

/-- As many spaces against a text. -/
def compareSpaces : List UInt8 → Ordering
  | [] => .eq
  | byte :: rest => (compare 0x20 byte).then (compareSpaces rest)

/-- Byte by byte as if the shorter were padded with spaces. -/
def comparePadded : List UInt8 → List UInt8 → Ordering
  | [], right => compareSpaces right
  | byte :: rest, [] => (compareSpaces (byte :: rest)).swap
  | left :: lefts, right :: rights => (compare left right).then (comparePadded lefts rights)

/-- A PAD SPACE collation; binary strings have none. -/
def padSpace (f : Field) : Bool :=
  match f.charset with
  | some cs => !cs.nopad && !cs.isBinary
  | none => false

/-- A `_bin` collation compares code points: the bytes' order, but for a
multi-byte character set that is not a form of UTF-8. A plugin type (INET6,
UUID) has an order of its own. -/
def sortsBytes (f : Field) : Bool :=
  match f.charset with
  | some cs => f.isTraditionalScalarType && cs.binsort && (fieldEnc f ≠ .hex || hexKeepsOrder f)
  | none => false

/-- The comparison of two texts of a field whose collation does not sort
bytes. -/
abbrev Collate := Field → List UInt8 → List UInt8 → Ordering

/-- MariaDB's comparison of two texts of a field. -/
def compareText (collate : Collate) (f : Field) (left right : List UInt8) : Ordering :=
  if sortsBytes f then if padSpace f then comparePadded left right else compareBytes left right
  else collate f left right

/-- Two values of one key part, texts compared by `text`, NULL first. -/
def comparePart (text : List UInt8 → List UInt8 → Ordering) :
    Option FieldValue → Option FieldValue → Ordering
  | none, none => .eq
  | none, some _ => .lt
  | some _, none => .gt
  | some (.integer left), some (.integer right) => compare left right
  | some (.bytes left), some (.bytes right) => text left right
  | some (.integer _), some (.bytes _) => .lt
  | some (.bytes _), some (.integer _) => .gt

def compareParts (text : Field → List UInt8 → List UInt8 → Ordering) :
    List Field → MariaRow → MariaRow → Ordering
  | [], _, _ => .eq
  | f :: parts, left, right =>
      (comparePart (text f) (left.value f) (right.value f)).then (compareParts text parts left right)

/-- MariaDB's comparison of two rows' keys. -/
def compareKey (collate : Collate) : List Field → MariaRow → MariaRow → Ordering :=
  compareParts (compareText collate)

/-- The order MariaDB expects of an index read. -/
def keyOrder (collate : Collate) (parts : List Field) (desc : Bool) (left right : Int64 × MariaRow) :
    Ordering :=
  directed desc (compareKey collate parts left.2 right.2)

/-- `index_first`, or `index_last` when `desc`, and then `index_next` to the
end: `index_end_read` opens the read, `columns` are those it fills. -/
def indexRead [Stoolap] (table : TableView) (fields : List Field) (parts : List Field)
    (columns : List Nat) (fixed desc : Bool) (fuel : Nat) : Option (List IdRow) :=
  match ordered table { tableColumns := fields.length, columns, conds := [],
                        order := parts.map Field.fieldIndex, desc, fixed } with
  | .error _ => none
  | .ok source => readAll (fun _ => table) fuel (some source)

/-- Rows the two orders put in opposite directions. They are equal before a
PAD SPACE part where `right`'s text continues `left`'s. What follows sorts
below a space, or is only spaces and the parts after it sort the other way. -/
def PadConflict (collate : Collate) (left right : MariaRow) : List Field → Prop
  | [] => False
  | f :: parts =>
      (left.value f = right.value f ∧ PadConflict collate left right parts) ∨
      (padSpace f = true ∧ ∃ text tail, tail ≠ [] ∧ left.value f = some (.bytes text) ∧
        right.value f = some (.bytes (text ++ tail)) ∧
        match tail.find? (· ≠ 0x20) with
        | some byte => byte < 0x20
        | none => compareKey collate parts left right = .gt)

/-- A key part of an integer or string type. -/
def IntegerOrString (f : Field) : Prop :=
  f.realType.isInteger = true ∨ f.realType.isString = true ∧ f.isTraditionalScalarType = true

/-- A value of the field's type. -/
def Typed (f : Field) : Option FieldValue → Prop
  | none => True
  | some (.integer _) => f.realType.isInteger = true
  | some (.bytes _) => f.realType.isString = true

/-- Every string part is one whose bytes MariaDB sorts. -/
def BytesSorted (f : Field) : Prop := f.realType.isString = true → sortsBytes f = true

theorem isInteger_isString (type : RealType) : ¬ (type.isInteger = true ∧ type.isString = true) := by
  cases type <;> decide

/-- The flags promise an order of a string part exactly when its collation
sorts bytes. -/
theorem stringFlags_readOrder {f : Field} (traditional : f.isTraditionalScalarType = true) :
    (stringFlags f).readOrder = sortsBytes f := by
  simp only [stringFlags, sortsBytes, traditional, Bool.true_and]
  cases f.charset with
  | none => split <;> rfl
  | some cs => cases hex : decide (fieldEnc f = .hex) <;> cases keeps : hexKeepsOrder f <;>
      cases binsort : cs.binsort <;> simp_all [IndexFlags.nothing, IndexFlags.full]

theorem bytesSorted_of_offered {keys : List (List Field)} {inx : Nat} {parts : List Field}
    (key : keys[inx]? = some parts)
    (types : ∀ f ∈ parts, IntegerOrString f)
    (offered : ∀ part < parts.length, (indexFlags keys inx part).readOrder = true) :
    ∀ f ∈ parts, BytesSorted f := by
  intro f member isString
  have traditional : f.isTraditionalScalarType = true := by
    rcases types f member with isInteger | string
    · exact absurd ⟨isInteger, isString⟩ (isInteger_isString f.realType)
    · exact string.2
  obtain ⟨part, bound, rfl⟩ := List.getElem_of_mem member
  have flags := offered part bound
  have found : keys[inx]?.bind (·[part]?) = some parts[part] := by simp [key, bound]
  rw [indexFlags, found] at flags
  rw [← stringFlags_readOrder traditional]
  cases type : parts[part].realType <;> simp_all [RealType.isString]

theorem comparePadded_append (text tail : List UInt8) :
    comparePadded text (text ++ tail) = compareSpaces tail := by
  induction text with
  | nil => rfl
  | cons byte rest ih => simp [comparePadded, ih]

/-- The first byte that is not a space decides. -/
theorem compareSpaces_eq (tail : List UInt8) :
    compareSpaces tail = match tail.find? (· ≠ 0x20) with
      | some byte => compare 0x20 byte
      | none => .eq := by
  induction tail with
  | nil => rfl
  | cons byte rest ih =>
      by_cases space : byte = 0x20
      · subst space
        simpa [compareSpaces] using ih
      · have apart : compare 0x20 byte ≠ .eq := fun equal => space (Std.compare_eq_iff_eq.mp equal).symm
        simp only [compareSpaces, List.find?_cons, space, ne_eq, not_false_eq_true, decide_true]
        cases order : compare 0x20 byte with
        | eq => exact absurd order apart
        | lt => rfl
        | gt => rfl

theorem compareBytes_append {tail : List UInt8} (some' : tail ≠ []) (text : List UInt8) :
    compareBytes text (text ++ tail) = .lt := by
  induction text with
  | nil =>
      cases tail with
      | nil => exact absurd rfl some'
      | cons byte rest => rfl
  | cons byte rest ih =>
      simpa [compareBytes, List.compareLex_cons_cons] using ih

/-- A text that sorts below another by bytes does so padded too, unless the
other continues it. -/
theorem comparePadded_of_lt {left right : List UInt8} (less : compareBytes left right = .lt) :
    comparePadded left right = .lt ∨ ∃ tail, tail ≠ [] ∧ right = left ++ tail := by
  induction left generalizing right with
  | nil =>
      cases right with
      | nil => exact absurd less (by decide)
      | cons byte rest => exact .inr ⟨byte :: rest, by simp, rfl⟩
  | cons byte rest ih =>
      cases right with
      | nil => exact absurd less (by rw [compareBytes, List.compareLex_cons_nil]; decide)
      | cons other others =>
          simp only [compareBytes, List.compareLex_cons_cons] at less
          cases order : compare byte other with
          | lt => exact .inl (by simp [comparePadded, order])
          | gt => simp [order] at less
          | eq =>
              rw [order] at less
              have same := Std.compare_eq_iff_eq.mp order
              subst same
              rcases ih less with padded | ⟨tail, some', rfl⟩
              · exact .inl (by simp [comparePadded, padded])
              · exact .inr ⟨tail, some', rfl⟩

theorem comparePadded_self (text : List UInt8) : comparePadded text text = .eq := by
  simpa [compareSpaces] using comparePadded_append text []

theorem comparePadded_swap (left right : List UInt8) :
    comparePadded left right = (comparePadded right left).swap := by
  induction left generalizing right with
  | nil => cases right <;> simp [comparePadded, compareSpaces]
  | cons byte rest ih =>
      cases right with
      | nil => rfl
      | cons other others =>
          simp only [comparePadded, Ordering.swap_then, ih others,
            Std.OrientedOrd.eq_swap (a := byte) (b := other)]

section Parts

variable {collate : Collate} {parts : List Field} {left right : MariaRow}

theorem compareText_swap {f : Field} (sorts : sortsBytes f = true) (left right : List UInt8) :
    compareText collate f left right = (compareText collate f right left).swap := by
  simp only [compareText, sorts, if_true]
  split
  · exact comparePadded_swap left right
  · exact @Std.OrientedCmp.eq_swap _ (List.compareLex compare) _ _ _

theorem comparePart_swap {text : List UInt8 → List UInt8 → Ordering} {left right : Option FieldValue}
    (swaps : ∀ first second, left = some (.bytes first) → right = some (.bytes second) →
      text first second = (text second first).swap) :
    comparePart text left right = (comparePart text right left).swap := by
  rcases left with _ | ⟨left⟩ | ⟨left⟩ <;> rcases right with _ | ⟨right⟩ | ⟨right⟩ <;>
    simp only [comparePart, Ordering.swap_eq, Ordering.swap_lt, Ordering.swap_gt]
  · exact Std.OrientedCmp.eq_swap
  · exact swaps left right rfl rfl

/-- The parts' values of a row have their types. -/
def TypedRow (parts : List Field) (row : MariaRow) : Prop := ∀ f ∈ parts, Typed f (row.value f)

theorem compareKey_swap (sorted : ∀ f ∈ parts, BytesSorted f) (leftTyped : TypedRow parts left) :
    compareKey collate parts left right = (compareKey collate parts right left).swap := by
  induction parts with
  | nil => rfl
  | cons f parts ih =>
      have rest := ih (fun f member => sorted f (by simp [member]))
        fun f member => leftTyped f (by simp [member])
      have first : comparePart (compareText collate f) (left.value f) (right.value f) =
          (comparePart (compareText collate f) (right.value f) (left.value f)).swap :=
        comparePart_swap fun one two isBytes _ => by
          have typed := leftTyped f (by simp)
          rw [isBytes] at typed
          exact compareText_swap (sorted f (by simp) typed) one two
      simp only [compareKey, compareParts] at rest ⊢
      rw [rest, first, Ordering.swap_then]

/-- Stoolap's order of the stored values, the plain order of the texts'
bytes. -/
def compareStored : List Field → MariaRow → MariaRow → Ordering := compareParts fun _ => compareBytes

theorem compareValues_encode [Stoolap] [lawful : LawfulStoolap] {f : Field}
    {left right : Option FieldValue} (leftTyped : Typed f left) (rightTyped : Typed f right) :
    compareValues (left.map (encodeField f)) (right.map (encodeField f)) =
      comparePart compareBytes left right := by
  rcases left with _ | ⟨left⟩ | ⟨left⟩ <;> rcases right with _ | ⟨right⟩ | ⟨right⟩ <;>
    simp only [Option.map_none, Option.map_some, compareValues, comparePart, encodeField]
  · exact lawful.compare_integer left right
  · exact absurd ⟨leftTyped, rightTyped⟩ (isInteger_isString f.realType)
  · exact absurd ⟨rightTyped, leftTyped⟩ (isInteger_isString f.realType)
  · rw [lawful.compare_text]
    split
    · exact compareBytes_hexEncode left right
    · rfl

theorem encodeRow_value {fields : List Field} {f : Field} (found : fields[f.fieldIndex]? = some f)
    (row : MariaRow) : (encodeRow fields row).value f.fieldIndex = (row.value f).map (encodeField f) := by
  simp only [Row.value, encodeRow, MariaRow.value, List.getElem?_zipWith, found]
  cases row[f.fieldIndex]? <;> rfl

theorem compareBy_encodeRow [Stoolap] [LawfulStoolap] {fields : List Field}
    (found : ∀ f ∈ parts, fields[f.fieldIndex]? = some f) (leftTyped : TypedRow parts left)
    (rightTyped : TypedRow parts right) :
    compareBy (parts.map Field.fieldIndex) (encodeRow fields left) (encodeRow fields right) =
      compareStored parts left right := by
  induction parts with
  | nil => rfl
  | cons f parts ih =>
      have rest := ih (fun f member => found f (by simp [member]))
        (fun f member => leftTyped f (by simp [member])) fun f member => rightTyped f (by simp [member])
      simp only [List.map_cons, compareBy, compareStored, compareParts, rest,
        encodeRow_value (found f (by simp)), compareValues_encode (leftTyped f (by simp)) (rightTyped f (by simp))]

theorem comparePart_bytes_eq {left right : Option FieldValue}
    (same : comparePart compareBytes left right = .eq) : left = right := by
  rcases left with _ | ⟨left⟩ | ⟨left⟩ <;> rcases right with _ | ⟨right⟩ | ⟨right⟩ <;>
    simp only [comparePart, reduceCtorEq] at same
  · rfl
  · rw [Std.compare_eq_iff_eq.mp same]
  · have equal : compare left right = .eq := same
    rw [Std.compare_eq_iff_eq.mp equal]

theorem comparePart_self (collate : Collate) {f : Field} (sorted : BytesSorted f) {value : Option FieldValue}
    (typed : Typed f value) : comparePart (compareText collate f) value value = .eq := by
  rcases value with _ | ⟨value⟩ | ⟨value⟩
  · rfl
  · exact Std.ReflOrd.compare_self
  · simp only [comparePart, compareText, sorted typed, if_true]
    split
    · exact comparePadded_self value
    · exact @Std.ReflCmp.compare_self _ (List.compareLex compare) _ _

/-- Rows stoolap finds equal MariaDB does too. -/
theorem compareKey_of_stored_eq (sorted : ∀ f ∈ parts, BytesSorted f) (leftTyped : TypedRow parts left)
    (same : compareStored parts left right = .eq) : compareKey collate parts left right = .eq := by
  induction parts with
  | nil => rfl
  | cons f parts ih =>
      simp only [compareStored, compareParts, Ordering.then_eq_eq] at same
      have rest := ih (fun f member => sorted f (by simp [member]))
        (fun f member => leftTyped f (by simp [member])) same.2
      have equal := comparePart_bytes_eq same.1
      simp only [compareKey, compareParts] at rest ⊢
      rw [← equal, comparePart_self collate (sorted f (by simp)) (leftTyped f (by simp)), rest]
      rfl

/-- One part the orders disagree on: a PAD SPACE text and its
continuation. -/
theorem comparePart_of_stored_lt (collate : Collate) {f : Field} (sorted : BytesSorted f)
    {left right : Option FieldValue}
    (leftTyped : Typed f left) (less : comparePart compareBytes left right = .lt) :
    comparePart (compareText collate f) left right = .lt ∨
      (padSpace f = true ∧ ∃ text tail, tail ≠ [] ∧ left = some (.bytes text) ∧
        right = some (.bytes (text ++ tail)) ∧
        comparePart (compareText collate f) left right = compareSpaces tail) := by
  rcases left with _ | ⟨left⟩ | ⟨left⟩ <;> rcases right with _ | ⟨right⟩ | ⟨right⟩ <;>
    simp only [comparePart, reduceCtorEq] at less
  · exact .inl rfl
  · exact .inl rfl
  · exact .inl less
  · exact .inl rfl
  · have sorts := sorted leftTyped
    cases pad : padSpace f with
    | false => exact .inl (by simpa only [comparePart, compareText, sorts, pad, if_true, Bool.false_eq_true, if_false] using less)
    | true =>
        simp only [comparePart, compareText, sorts, pad, if_true]
        rcases comparePadded_of_lt less with padded | ⟨tail, some', rfl⟩
        · exact .inl padded
        · exact .inr ⟨trivial, left, tail, some', rfl, rfl, comparePadded_append left tail⟩

/-- Stoolap's order and MariaDB's go opposite ways exactly at a PAD SPACE
conflict. -/
theorem padConflict_iff (sorted : ∀ f ∈ parts, BytesSorted f) (leftTyped : TypedRow parts left) :
    PadConflict collate left right parts ↔
      compareStored parts left right = .lt ∧ compareKey collate parts left right = .gt := by
  induction parts with
  | nil => simp [PadConflict, compareStored, compareParts]
  | cons f parts ih =>
      have rest := ih (fun f member => sorted f (by simp [member]))
        fun f member => leftTyped f (by simp [member])
      have self := comparePart_self collate (sorted f (by simp)) (leftTyped f (by simp))
      simp only [PadConflict, rest, compareStored, compareKey, compareParts]
      constructor
      · rintro (⟨same, before, after⟩ | ⟨pad, text, tail, some', isText, isLonger, follows⟩)
        · rw [← same, self]
          have stored : comparePart compareBytes (left.value f) (left.value f) = .eq := by
            rcases left.value f with _ | ⟨value⟩ | ⟨value⟩
            · rfl
            · exact Std.ReflOrd.compare_self
            · exact @Std.ReflCmp.compare_self _ (List.compareLex compare) _ _
          rw [stored]
          exact ⟨before, after⟩
        · have sorts : sortsBytes f = true := by
            have typed := leftTyped f (by simp)
            rw [isText] at typed
            exact sorted f (by simp) typed
          rw [isText, isLonger]
          simp only [comparePart, compareText, sorts, pad, if_true, comparePadded_append,
            compareBytes_append some', compareSpaces_eq]
          cases found : tail.find? (· ≠ 0x20) with
          | none =>
              simp only [found] at follows
              exact ⟨rfl, follows⟩
          | some byte =>
              simp only [found] at follows
              have after : compare 0x20 byte = .gt := Std.compare_eq_gt.mpr follows
              simp [after]
      · rintro ⟨before, after⟩
        cases stored : comparePart compareBytes (left.value f) (right.value f) with
        | gt => simp [stored] at before
        | eq =>
            have same := comparePart_bytes_eq stored
            rw [stored] at before
            rw [← same, self] at after
            exact .inl ⟨same, before, after⟩
        | lt =>
            rcases comparePart_of_stored_lt collate (sorted f (by simp)) (leftTyped f (by simp)) stored with
              less | ⟨pad, text, tail, some', isText, isLonger, order⟩
            · simp [less] at after
            · refine .inr ⟨pad, text, tail, some', isText, isLonger, ?_⟩
              rw [order, compareSpaces_eq] at after
              cases found : tail.find? (· ≠ 0x20) with
              | none =>
                  simp only [found] at after
                  exact after
              | some byte =>
                  simp only [found] at after
                  cases spaces : compare 0x20 byte with
                  | gt => exact Std.compare_eq_gt.mp spaces
                  | lt => simp [spaces] at after
                  | eq =>
                      have isSpace := List.find?_some found
                      simp [← Std.compare_eq_iff_eq.mp spaces] at isSpace

/-- Read backwards the same pairs are in conflict, the other way round. -/
theorem directed_conflict {α : Type} {stored key : α → α → Ordering} {list : List α} (desc : Bool)
    (storedSwap : ∀ left ∈ list, ∀ right ∈ list, stored left right = (stored right left).swap)
    (keySwap : ∀ left ∈ list, ∀ right ∈ list, key left right = (key right left).swap) :
    (∀ left ∈ list, ∀ right ∈ list, directed desc (stored left right) = .lt →
        directed desc (key left right) ≠ .gt) ↔
      ∀ left ∈ list, ∀ right ∈ list, ¬ (stored left right = .lt ∧ key left right = .gt) := by
  cases desc with
  | false => simp only [directed, Bool.false_eq_true, if_false, ne_eq, not_and]
  | true =>
      simp only [directed, if_true]
      constructor
      · rintro agree left leftIn right rightIn ⟨before, after⟩
        refine agree right rightIn left leftIn ?_ ?_
        · rw [← storedSwap left leftIn right rightIn, before]
        · rw [← keySwap left leftIn right rightIn, after]
      · intro agree left leftIn right rightIn before after
        refine agree right rightIn left leftIn ⟨?_, ?_⟩
        · rw [storedSwap right rightIn left leftIn, before]
        · rw [keySwap right rightIn left leftIn, after]

end Parts

/-- The table an index read sees: `parts` is an index of integer and
traditional string columns, each whole (no prefix of a column, so no BLOB or
TEXT part), that all promise an order, the rows have their types, and the view
shows them as stoolap stores them. -/
structure Readable [Stoolap] (table : TableView) (keys : List (List Field)) (inx : Nat)
    (fields parts : List Field) (columns : List Nat) (rows : List (Int64 × MariaRow)) : Prop where
  key : keys[inx]? = some parts
  some' : parts ≠ []
  types : ∀ f ∈ parts, IntegerOrString f
  offered : ∀ part < parts.length, (indexFlags keys inx part).readOrder = true
  found : ∀ f ∈ parts, fields[f.fieldIndex]? = some f
  typed : ∀ row ∈ rows, TypedRow parts row.2
  count : table.schema.columns.length = fields.length
  columns : ∀ column ∈ columns, column < fields.length
  shows : Shows table (rows.map (storedRow fields))

section Read

variable [Stoolap] [LawfulStoolap] {table : TableView} {keys : List (List Field)} {inx : Nat}
  {fields parts : List Field} {columns : List Nat} {rows : List (Int64 × MariaRow)}

/-- An index read delivers the table's rows in the order of their stored
values. -/
theorem indexRead_stored (readable : Readable table keys inx fields parts columns rows)
    (fixed desc : Bool) :
    ∃ delivered : List (Int64 × MariaRow), delivered.Perm rows ∧
      (∀ fuel, rows.length < fuel → indexRead table fields parts columns fixed desc fuel =
        some (delivered.map (storedRow fields))) ∧
      SortedBy (fun left right => rowOrder (parts.map Field.fieldIndex) desc
        (storedRow fields left) (storedRow fields right)) delivered := by
  have inFields : ∀ column ∈ parts.map Field.fieldIndex, column < fields.length := by
    intro column member
    obtain ⟨f, isPart, rfl⟩ := List.mem_map.mp member
    exact (List.getElem?_eq_some_iff.mp (readable.found f isPart)).1
  obtain ⟨source, list, opened, reads, perm, sorted⟩ := @ordered_delivers _ _ table _
    { tableColumns := fields.length, columns, conds := [],
      order := parts.map Field.fieldIndex, desc, fixed }
    readable.shows
    ⟨readable.count.symm, readable.count ▸ readable.columns, readable.count ▸ inFields⟩ rfl
    (by simpa using readable.some')
  obtain ⟨delivered, rfl, same⟩ := exists_map_of_perm perm
  refine ⟨delivered, same, fun fuel enough => ?_, sortedBy_map.mp sorted⟩
  simp only [indexRead, opened]
  exact reads fuel (by simpa using enough)

/-- Rows in stoolap's order are in MariaDB's exactly when no two are in a
PAD SPACE conflict. -/
theorem stored_order_is_key_order {collate : Collate} {delivered : List (Int64 × MariaRow)}
    (readable : Readable table keys inx fields parts columns rows) (desc : Bool)
    (perm : delivered.Perm rows)
    (sorted : SortedBy (fun left right => rowOrder (parts.map Field.fieldIndex) desc
      (storedRow fields left) (storedRow fields right)) delivered) :
    SortedBy (keyOrder collate parts desc) delivered ↔
      ∀ left ∈ rows, ∀ right ∈ rows, ¬ PadConflict collate left.2 right.2 parts := by
  have sorts := bytesSorted_of_offered readable.key readable.types readable.offered
  have typed : ∀ row ∈ delivered, TypedRow parts row.2 :=
    fun row member => readable.typed row (perm.mem_iff.mp member)
  have total := compareBy_transCmp (parts.map Field.fieldIndex)
  have rowsTotal := rowOrder_transCmp (parts.map Field.fieldIndex) desc
  have oriented : Std.OrientedCmp fun left right : Int64 × MariaRow =>
      rowOrder (parts.map Field.fieldIndex) desc (storedRow fields left) (storedRow fields right) :=
    ⟨Std.OrientedCmp.eq_swap⟩
  have stored : ∀ left ∈ delivered, ∀ right ∈ delivered,
      compareBy (parts.map Field.fieldIndex) (encodeRow fields left.2) (encodeRow fields right.2) =
        compareStored parts left.2 right.2 :=
    fun left leftIn right rightIn => compareBy_encodeRow readable.found (typed left leftIn) (typed right rightIn)
  have conflicts := @directed_conflict _
    (fun left right : Int64 × MariaRow =>
      compareBy (parts.map Field.fieldIndex) (encodeRow fields left.2) (encodeRow fields right.2))
    (fun left right => compareKey collate parts left.2 right.2) delivered desc
    (fun left _ right _ => Std.OrientedCmp.eq_swap)
    (fun left leftIn right _ => compareKey_swap sorts (typed left leftIn))
  have ties : ∀ left ∈ delivered, ∀ right ∈ delivered, rowOrder (parts.map Field.fieldIndex) desc
      (storedRow fields left) (storedRow fields right) = .eq → keyOrder collate parts desc left right = .eq := by
    intro left leftIn right rightIn same
    have equal := directed_eq_iff.mp same
    simp only [storedRow, stored left leftIn right rightIn] at equal
    exact directed_eq_iff.mpr (compareKey_of_stored_eq sorts (typed left leftIn) equal)
  rw [sortedBy_iff_no_conflict sorted ties]
  refine conflicts.trans ⟨fun none left leftIn right rightIn conflict => ?_,
    fun none left leftIn right rightIn opposite => ?_⟩
  · have leftIn := perm.mem_iff.mpr leftIn
    have rightIn := perm.mem_iff.mpr rightIn
    obtain ⟨before, after⟩ := (padConflict_iff sorts (typed left leftIn)).mp conflict
    exact none left leftIn right rightIn ⟨(stored left leftIn right rightIn).trans before, after⟩
  · refine none left (perm.mem_iff.mp leftIn) right (perm.mem_iff.mp rightIn)
      ((padConflict_iff sorts (typed left leftIn)).mpr ⟨?_, opposite.2⟩)
    rw [← stored left leftIn right rightIn]
    exact opposite.1

/-- Index reads in either direction deliver MariaDB's key order exactly when
no two rows are in a PAD SPACE conflict. -/
theorem index_read_ordered {collate : Collate}
    (readable : Readable table keys inx fields parts columns rows) (fixed desc : Bool) :
    (∃ delivered : List (Int64 × MariaRow), delivered.Perm rows ∧
        (∀ fuel, rows.length < fuel → indexRead table fields parts columns fixed desc fuel =
          some (delivered.map (storedRow fields))) ∧
        SortedBy (keyOrder collate parts desc) delivered) ↔
      ∀ left ∈ rows, ∀ right ∈ rows, ¬ PadConflict collate left.2 right.2 parts := by
  obtain ⟨delivered, perm, reads, sorted⟩ := indexRead_stored readable fixed desc
  constructor
  · rintro ⟨other, otherPerm, otherReads, ordered⟩
    have same : other.map (storedRow fields) = delivered.map (storedRow fields) := by
      have one := otherReads (rows.length + 1) (by omega)
      rw [reads (rows.length + 1) (by omega), Option.some.injEq] at one
      exact one.symm
    have otherSorted := sortedBy_map.mp (same ▸ sortedBy_map.mpr sorted)
    exact (stored_order_is_key_order readable desc otherPerm otherSorted).mp ordered
  · intro none
    exact ⟨delivered, perm, reads, (stored_order_is_key_order readable desc perm sorted).mpr none⟩

end Read

/-- A VARCHAR column in `utf8mb4_bin` and an INT one. -/
def textField : Field where
  realType := .varchar
  charset := some { csName := "utf8mb4", binsort := true, nopad := false, unicode := true,
                    isBinary := false, mbminlen := 1, mbmaxlen := 4 }
  isTraditionalScalarType := true
  fieldIndex := 0

def intField : Field where
  realType := .long
  charset := none
  isTraditionalScalarType := true
  fieldIndex := 1

def textTable (rows : List (Int64 × MariaRow)) : TableView :=
  let _ := Stoolap.reference
  TableView.ofRows "t"
    { columns := [{ name := "v", dataType := .text }, { name := "n", dataType := .integer }],
      pkColumn := none }
    (rows.map (storedRow [textField, intField]))

theorem textTable_readable {rows : List (Int64 × MariaRow)} {parts : List Field}
    (some' : parts ≠ []) (fields : ∀ f ∈ parts, f = textField ∨ f = intField)
    (typed : ∀ row ∈ rows, TypedRow parts row.2) :
    @Readable Stoolap.reference (textTable rows) [parts] 0 [textField, intField] parts [0, 1] rows := by
  let reference := Stoolap.reference
  have lawful := Stoolap.reference_lawful
  refine ⟨rfl, some', fun f member => ?_, fun part bound => ?_, fun f member => ?_, typed, rfl,
    by decide, TableView.ofRows_shows _ _ _⟩
  · rcases fields f member with rfl | rfl
    · exact .inr ⟨rfl, rfl⟩
    · exact .inl rfl
  · have found : [parts][0]?.bind (·[part]?) = some parts[part] := by simp [bound]
    rw [indexFlags, found]
    rcases fields parts[part] (List.getElem_mem bound) with same | same <;> rw [same] <;> rfl
  · rcases fields f member with rfl | rfl <;> rfl

/-- `('a', 2)`, `('b', 1)` and `('b', 3)` come in order from an index on both
columns. -/
theorem index_read_ordered_pair :
    let rows := [(1, [some (.bytes [0x62]), some (.integer 3)]),
      (2, [some (.bytes [0x62]), some (.integer 1)]), (3, [some (.bytes [0x61]), some (.integer 2)])]
    ∃ delivered : List (Int64 × MariaRow), delivered.Perm rows ∧
      (∀ fuel, 3 < fuel → @indexRead Stoolap.reference (textTable rows) [textField, intField]
        [textField, intField] [0, 1] false false fuel =
          some (delivered.map (storedRow [textField, intField]))) ∧
      SortedBy (keyOrder (fun _ => compareBytes) [textField, intField] false) delivered := by
  let reference := Stoolap.reference
  have lawful := Stoolap.reference_lawful
  intro rows
  have readable : Readable (textTable rows) [[textField, intField]] 0 [textField, intField]
      [textField, intField] [0, 1] rows :=
    textTable_readable (by decide) (by simp) (by
      simp [rows, TypedRow, Typed, MariaRow.value, textField, intField, RealType.isInteger, RealType.isString])
  have sorts := bytesSorted_of_offered readable.key readable.types readable.offered
  refine (index_read_ordered readable false false).mpr fun left leftIn right rightIn => ?_
  rw [padConflict_iff sorts (readable.typed left leftIn)]
  revert left right
  decide

/-- The index on a `utf8mb4_bin` column delivers 'a' before 'a' and a tab,
which MariaDB sorts the other way. -/
theorem index_read_unordered :
    let rows := [(1, [some (.bytes [0x61]), some (.integer 1)]),
      (2, [some (.bytes [0x61, 0x09]), some (.integer 1)])]
    ¬ ∃ delivered : List (Int64 × MariaRow), delivered.Perm rows ∧
      (∀ fuel, 2 < fuel → @indexRead Stoolap.reference (textTable rows) [textField, intField]
        [textField] [0, 1] false false fuel = some (delivered.map (storedRow [textField, intField]))) ∧
      SortedBy (keyOrder (fun _ => compareBytes) [textField] false) delivered := by
  rintro rows ⟨delivered, perm, reads, sorted⟩
  have given : @indexRead Stoolap.reference (textTable rows) [textField, intField] [textField] [0, 1]
      false false 3 = some (rows.map (storedRow [textField, intField])) := rfl
  have same := (reads 3 (by decide)).symm.trans given
  simp only [Option.some.injEq] at same
  have inOrder : delivered = rows := by
    match delivered, perm.length_eq with
    | [first, second], _ =>
        have firstIn : first ∈ rows := perm.mem_iff.mp (by simp)
        have secondIn : second ∈ rows := perm.mem_iff.mp (by simp)
        simp only [rows, List.mem_cons, List.not_mem_nil, or_false] at firstIn secondIn
        -- The ids given are 1 and 2, in this order.
        have ids := congrArg (List.map Prod.fst) same
        rcases firstIn with rfl | rfl <;> rcases secondIn with rfl | rfl <;>
          first | rfl | exact absurd ids (by decide)
  rw [inOrder] at sorted
  exact absurd sorted (by unfold SortedBy; decide)

end StoolapMariadb.Index
