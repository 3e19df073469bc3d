import StoolapMariadb.Value
import StoolapMariadb.Lib.Bytes

namespace StoolapMariadb.Record

/-! MariaDB's record buffer, read field by field as the plugin describes
it. -/

/-- The bytes of a record buffer by offset. -/
abbrev RecordBuffer := Bytes.Memory

inductive FieldKind where
  | store
  | int
  | double
  | float
  | varchar
deriving DecidableEq

/-- One field of the record: the stoolap column it reads, how and where it is
stored, its NULL bit (`nullMask` 0 when NOT NULL). -/
structure StoolapField where
  column : Int32
  kind : FieldKind
  offset : UInt32
  nullOffset : UInt32
  nullMask : UInt32
  length : UInt32
  maxChars : UInt32
  isUnsigned : Bool
  field : Int32
  packLength : UInt32

/-- `f.column as usize`. -/
def StoolapField.columnIndex (f : StoolapField) : Nat := f.column.toInt64.toUInt64.toNat

/-- Why an encode callback gave no value: its return code, or a value the FFI
conversion refuses. -/
inductive EncodeError where
  | callback (rc : Int32)
  | conversion (message : String)

/-- The record a write reads, and the callback for the kinds read
elsewhere. -/
structure RecordIn where
  record : RecordBuffer
  encode : Option (Int32 → RecordBuffer → Except EncodeError Value)

def isNull (f : StoolapField) (record : RecordBuffer) : Bool :=
  f.nullMask ≠ 0 && record f.nullOffset.toNat &&& f.nullMask.toUInt8 ≠ 0

/-- The `length` bytes of an integer field, sign-extended to eight unless the
field is unsigned. -/
def readInt (f : StoolapField) (record : RecordBuffer) : Int64 :=
  let n := f.length.toNat
  let bytes := Bytes.read record f.offset.toNat n
  let negative := !f.isUnsigned && n < 8 && (bytes.getLast?.getD 0) &&& 0x80 ≠ 0
  let padded := bytes ++ List.replicate (8 - n) (if negative then 0xff else 0)
  (UInt64.ofNat (Bytes.fromLe padded)).toInt64

/-- The value of a field whose record bytes stoolap reads itself. -/
def readDirect [Stoolap] (f : StoolapField) (record : RecordBuffer) : Option Scalar :=
  match f.kind with
  | .int =>
      let value := readInt f record
      -- BIGINT UNSIGNED past `INT64_MAX` has no stoolap value.
      if !f.isUnsigned || f.length.toNat < 8 || value ≥ 0 then some (.integer value) else none
  | .double => some (.float (UInt64.ofNat (Bytes.fromLe (Bytes.read record f.offset.toNat 8))))
  | .float =>
      some (.float (Stoolap.widen (UInt32.ofNat (Bytes.fromLe (Bytes.read record f.offset.toNat 4)))))
  | .varchar =>
      let count := Bytes.fromLe (Bytes.read record f.offset.toNat f.length.toNat)
      let bytes := Bytes.read record (f.offset.toNat + f.length.toNat) count
      if ByteArray.validateUTF8 ⟨bytes.toArray⟩ then some (.text bytes) else none
  | .store => none

def readValue [Stoolap] (f : StoolapField) (src : RecordIn) : Except String Value :=
  if isNull f src.record then .ok none
  else
    match readDirect f src.record with
    | some value => .ok (some value)
    | none =>
        match src.encode with
        | none => .error "a field needs an encode callback"
        | some encode =>
            match encode f.field src.record with
            | .ok value => .ok value
            | .error (.callback rc) => .error s!"encoding field {f.field} failed ({rc})"
            | .error (.conversion message) => .error message

end StoolapMariadb.Record
