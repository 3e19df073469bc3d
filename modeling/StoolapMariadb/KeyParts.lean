import Mathlib.Algebra.Group.Int.Defs
import StoolapMariadb.IndexOrder
import StoolapMariadb.KeyOrder

namespace StoolapMariadb.KeyRead

open StoolapMariadb.Types Index

/-! The parts of a key: the values MariaDB compares there, how a row stores
them, and which of them stoolap compares as MariaDB does. -/

structure TableField where
  field : Field
  isUnsigned : Bool
deriving DecidableEq

/-- `isSegment` is `HA_PART_KEY_SEG`: the part covers the start of a value. -/
structure KeyPart where
  column : TableField
  isSegment : Bool
deriving DecidableEq

structure KeyInfo where
  parts : List KeyPart
  -- `HA_NOSAME`
  noSame : Bool

/-- A field's value. A number is also a YEAR, a BIT, an ENUM's index, a SET's
mask, a packed date or time and a TIMESTAMP's microseconds; a text is bytes in
the field's own character set, or the digits of a DECIMAL. -/
inductive Datum where
  | number (value : Int)
  | real (bits : UInt64)
  | text (bytes : List UInt8)
deriving DecidableEq

/-- `extract_field`: what is stored, nothing for a value stoolap cannot
hold. -/
def extractField (c : TableField) : Datum → Option Scalar
  | .number value =>
      if c.field.realType = .longlong && c.isUnsigned && 2 ^ 63 ≤ value then none
      else some (.integer (Int64.ofInt value))
  | .real bits => some (.float bits)
  | .text bytes => some (.text (if fieldEnc c.field = .hex then hexEncode bytes else bytes))

def hexNibble (digit : UInt8) : Option UInt8 :=
  if 0x30 ≤ digit && digit ≤ 0x39 then some (digit - 0x30)
  else if 0x41 ≤ digit && digit ≤ 0x46 then some (digit - 0x41 + 10)
  else if 0x61 ≤ digit && digit ≤ 0x66 then some (digit - 0x61 + 10)
  else none

def hexDecode : List UInt8 → Option (List UInt8)
  | [] => some []
  | [_] => none
  | high :: low :: rest =>
      match hexNibble high, hexNibble low, hexDecode rest with
      | some high, some low, some rest => some ((high <<< 4 ||| low) :: rest)
      | _, _, _ => none

/-- `store_cell`: what a stored value is read back as. -/
def storeCell (c : TableField) : Scalar → Datum
  | .integer value => .number (if c.isUnsigned then value.toUInt64.toNat else value.toInt)
  | .float bits => .real bits
  | .text bytes => .text (if fieldEnc c.field = .hex then (hexDecode bytes).getD bytes else bytes)
  | .boolean value => .number (if value then 1 else 0)

/-- A row of the table by field index, `none` NULL. -/
abbrev FieldRow := List (Option Datum)

def FieldRow.value (row : FieldRow) (c : TableField) : Option Datum := (row[c.field.fieldIndex]?).join

def storedRow (columns : List TableField) (row : Int64 × FieldRow) : Read.IdRow :=
  (row.1, List.zipWith (fun c value => value.bind (extractField c)) columns row.2)

/-- The record's value after a stored row was read into it. -/
def recordValue (row : Row) (c : TableField) : Option Datum := (row.value c.field.fieldIndex).map (storeCell c)

/-- MariaDB's comparisons that are its own: of the texts of a part that does
not compare bytes (a case-insensitive or prefix one, a DECIMAL), and of
doubles. -/
structure Comparisons where
  collate : KeyPart → List UInt8 → List UInt8 → Ordering
  real : UInt64 → UInt64 → Ordering

namespace Comparisons

variable (cmp : Comparisons)

def compareText (p : KeyPart) (left right : List UInt8) : Ordering :=
  if p.column.field.realType.isString && !p.isSegment && sortsBytes p.column.field then
    if padSpace p.column.field then comparePadded left right else compareBytes left right
  else cmp.collate p left right

def compareDatum (p : KeyPart) : Datum → Datum → Ordering
  | .number left, .number right => compare left right
  | .real left, .real right => cmp.real left right
  | .text left, .text right => cmp.compareText p left right
  | .number _, _ | .real _, .text _ => .lt
  | .text _, _ | .real _, .number _ => .gt

/-- A row's value of a part against a key's, NULL first. -/
def comparePart (p : KeyPart) : Option Datum → Option Datum → Ordering
  | none, none => .eq
  | none, some _ => .lt
  | some _, none => .gt
  | some stored, some key => cmp.compareDatum p stored key

/-- `key_cmp`: the row against the key's parts. -/
def keyCmp : List KeyPart → List (Option Datum) → (TableField → Option Datum) → Ordering
  | p :: parts, key :: keys, row => (cmp.comparePart p (row p.column) key).then (keyCmp parts keys row)
  | _, _, _ => .eq

end Comparisons

/-- Whether an exact lookup leaves the part to MariaDB. -/
def keyPartNeedsFilter (p : KeyPart) (trustBin : Bool) : Bool :=
  if p.isSegment then true
  else if p.column.field.realType.isString then
    match p.column.field.charset with
    | none => false
    | some cs => if cs.isBinary || trustBin then false else !cs.binsort || !cs.nopad
  else false

/-- A filtered part whose collation orders bytes but pads with spaces. -/
def keyPartPads (p : KeyPart) (trustBin : Bool) : Bool :=
  keyPartNeedsFilter p trustBin && !p.isSegment &&
    match p.column.field.charset with
    | none => false
    | some cs => cs.binsort

theorem hexNibble_hexDigit {nibble : UInt8} (small : nibble.toNat < 16) :
    hexNibble (hexDigit nibble) = some nibble := by
  have each : ∀ nibble : Fin 16, hexNibble (hexDigit (UInt8.ofNat nibble)) = some (UInt8.ofNat nibble) := by decide
  simpa using each ⟨nibble.toNat, small⟩

theorem nibbles_join (byte : UInt8) : byte >>> 4 <<< 4 ||| byte &&& 15 = byte := by
  have each : ∀ byte : Fin 256, UInt8.ofNat byte >>> 4 <<< 4 ||| UInt8.ofNat byte &&& 15 = UInt8.ofNat byte := by
    decide +kernel
  simpa using each ⟨byte.toNat, byte.toNat_lt⟩

theorem hexDecode_hexEncode (bytes : List UInt8) : hexDecode (hexEncode bytes) = some bytes := by
  induction bytes with
  | nil => rfl
  | cons byte rest ih =>
      have bound := byte.toNat_lt
      have high : hexNibble (hexDigit (byte >>> 4)) = some (byte >>> 4) :=
        hexNibble_hexDigit (by rw [highNibble_toNat]; omega)
      have low : hexNibble (hexDigit (byte &&& 15)) = some (byte &&& 15) :=
        hexNibble_hexDigit (by rw [lowNibble_toNat]; omega)
      rw [hexEncode] at ih
      simp only [hexEncode, List.flatMap_cons, List.cons_append, List.nil_append, hexDecode, high, low, ih,
        nibbles_join]

/-- An unsigned field's values are below it: of the types read as numbers only a
BIGINT, a BIT and a SET use all 64 bits. -/
def TableField.top (c : TableField) : Int :=
  match c.field.realType with
  | .longlong | .set | .other => 2 ^ 64
  | _ => 2 ^ 63

theorem TableField.top_le (c : TableField) : c.top ≤ 2 ^ 64 := by
  unfold top
  split <;> decide

/-- A value of the field's type. -/
def Typed (c : TableField) : Datum → Prop
  | .number value =>
      c.field.realType.isString = false ∧ c.field.realType ≠ .float ∧ c.field.realType ≠ .double ∧
        c.field.realType ≠ .newDecimal ∧
        if c.isUnsigned then 0 ≤ value ∧ value < c.top else -2 ^ 63 ≤ value ∧ value < 2 ^ 63
  | .real _ => c.field.realType = .float ∨ c.field.realType = .double
  | .text _ => c.field.realType.isString = true ∨ c.field.realType = .newDecimal

theorem ofInt_toNat {value : Int} (low : 0 ≤ value) (high : value < 2 ^ 64) :
    ((Int64.ofInt value).toUInt64.toNat : Int) = value := by
  have same : (Int64.ofInt value).toUInt64.toNat = (BitVec.ofInt 64 value).toNat := rfl
  rw [same, BitVec.toNat_ofInt]
  omega

theorem ofInt_toInt {value : Int} (low : -2 ^ 63 ≤ value) (high : value < 2 ^ 63) :
    (Int64.ofInt value).toInt = value :=
  Int64.toInt_ofInt_of_le low high

/-- What is stored is read back. -/
theorem storeCell_extractField {c : TableField} {datum : Datum} {scalar : Scalar} (typed : Typed c datum)
    (stored : extractField c datum = some scalar) : storeCell c scalar = datum := by
  cases datum with
  | number value =>
      simp only [extractField] at stored
      split at stored
      · cases stored
      · cases stored
        have range := typed.2.2.2.2
        cases unsigned : c.isUnsigned with
        | true =>
            rw [unsigned, if_pos rfl] at range
            simp only [storeCell, unsigned, if_true, ofInt_toNat range.1 (range.2.trans_le c.top_le)]
        | false =>
            rw [unsigned, if_neg (by decide)] at range
            simp only [storeCell, unsigned, Bool.false_eq_true, if_false, ofInt_toInt range.1 range.2]
  | real bits =>
      cases stored
      rfl
  | text bytes =>
      cases stored
      by_cases hex : fieldEnc c.field = .hex
      · simp only [storeCell, hex, if_true, hexDecode_hexEncode, Option.getD_some]
      · simp only [storeCell, hex, if_false]

end StoolapMariadb.KeyRead
