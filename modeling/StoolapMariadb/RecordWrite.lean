import StoolapMariadb.Record
import StoolapMariadb.Lib.Bytes

namespace StoolapMariadb.Record

/-! MariaDB's record buffer, written field by field. -/

/-- What a write into the record calls for the kinds stored elsewhere: a
return code, and the record as the call left it. -/
structure Sink where
  store : Option (Int32 → Value → RecordBuffer → Int32 × RecordBuffer)

/-- Whether `v` fits a `bytes`-byte integer field; eight bytes keep any bit
pattern. -/
def intFits (v : Int64) (bytes : Nat) (unsigned : Bool) : Bool :=
  if bytes = 8 then true
  else if 1 ≤ bytes ∧ bytes ≤ 4 then
    if unsigned then 0 ≤ v.toInt ∧ v.toInt < 2 ^ (bytes * 8)
    else -2 ^ (bytes * 8 - 1) ≤ v.toInt ∧ v.toInt < 2 ^ (bytes * 8 - 1)
  else false

def isFinite (bits : UInt64) : Bool := (bits >>> 52) &&& 0x7ff ≠ 0x7ff

/-- `d.abs() > f32::MAX as f64`, of a finite float. -/
def pastFloat (bits : UInt64) : Bool := (bits &&& 0x7fffffffffffffff) > 0x47efffffe0000000

def intBytes (f : StoolapField) (v : Int64) : Option (List UInt8) :=
  if intFits v f.length.toNat f.isUnsigned then
    some ((Bytes.toLe 8 v.toUInt64.toNat).take f.length.toNat)
  else none

/-- The bytes a field takes for a value, when its kind takes it as it is. -/
def directBytes (f : StoolapField) (value : Scalar) : Option (List UInt8) :=
  match f.kind, value with
  | .int, .integer v => intBytes f v
  | .int, .boolean v => intBytes f (if v then 1 else 0)
  | .double, .float bits => if isFinite bits then some (Bytes.toLe 8 bits.toNat) else none
  | .double, .integer v => some (Bytes.toLe 8 v.toFloat.toBits.toNat)
  | .float, .float bits =>
      if !isFinite bits || pastFloat bits then none
      else some (Bytes.toLe 4 (Float.ofBits bits).toFloat32.toBits.toNat)
  | .varchar, .text bytes =>
      if bytes.length > f.maxChars.toNat then none
      else some ((Bytes.toLe 2 (bytes.length % 65536)).take f.length.toNat ++ bytes)
  | _, _ => none

/-- `write_direct`; nothing when the kind does not take the value. -/
def writeDirect (f : StoolapField) (value : Scalar) (record : RecordBuffer) : Option RecordBuffer :=
  (directBytes f value).map (Bytes.write record f.offset.toNat)

def setNull (f : StoolapField) (record : RecordBuffer) : RecordBuffer :=
  Bytes.write record f.nullOffset.toNat [record f.nullOffset.toNat ||| f.nullMask.toUInt8]

def clearNull (f : StoolapField) (record : RecordBuffer) : RecordBuffer :=
  if f.nullMask ≠ 0 then
    Bytes.write record f.nullOffset.toNat [record f.nullOffset.toNat &&& ~~~f.nullMask.toUInt8]
  else record

/-- One field of `write_record`. -/
def writeField (f : StoolapField) (row : Row) (sink : Sink) (record : RecordBuffer) :
    Except String Unit × RecordBuffer :=
  let value := row.value f.columnIndex
  if f.nullMask ≠ 0 ∧ value = none then (.ok (), setNull f record)
  else
    let record := clearNull f record
    match value.bind fun value => writeDirect f value record with
    | some record => (.ok (), record)
    | none =>
        -- Everything else, and NULL in a NOT NULL field, as the plugin stores it.
        match sink.store with
        | none => (.error "a field needs a store callback", record)
        | some store =>
            let (rc, record) := store f.field value record
            if rc ≠ 0 then (.error s!"storing field {f.field} failed ({rc})", record)
            else (.ok (), record)

def writeRecord (fields : List StoolapField) (row : Row) (sink : Sink) (record : RecordBuffer) :
    Except String Unit × RecordBuffer :=
  match fields with
  | [] => (.ok (), record)
  | f :: fields =>
      match writeField f row sink record with
      | (.error error, record) => (.error error, record)
      | (.ok (), record) => writeRecord fields row sink record

def readValues [Stoolap] (fields : List StoolapField) (src : RecordIn) : Except String (List Value) :=
  fields.mapM (readValue · src)

/-- A byte of the record is the field's. -/
def StoolapField.Covers (f : StoolapField) (address : Nat) : Prop :=
  f.offset.toNat ≤ address ∧ address < f.offset.toNat + f.packLength.toNat

/-- The layouts MariaDB gives the kinds read and written here without losing
anything. -/
def StoolapField.Shaped (f : StoolapField) : Prop :=
  match f.kind with
  | .int => f.length.toNat ∈ [1, 2, 3, 4, 8] ∧ f.length.toNat ≤ f.packLength.toNat
  | .double => 8 ≤ f.packLength.toNat
  | .varchar => f.length.toNat ∈ [1, 2] ∧ f.maxChars.toNat < 256 ^ f.length.toNat ∧
      f.length.toNat + f.maxChars.toNat ≤ f.packLength.toNat
  | _ => False

/-- A NULL bit is one bit of a byte that is not the field's. -/
structure StoolapField.WellFormed (f : StoolapField) : Prop where
  shaped : f.Shaped
  nullBit : f.nullMask ≠ 0 → ∃ bit < 8, f.nullMask.toNat = 2 ^ bit
  nullOutside : f.nullMask ≠ 0 → ¬ f.Covers f.nullOffset.toNat

structure StoolapField.Apart (f g : StoolapField) : Prop where
  bytes : ∀ address, f.Covers address → ¬ g.Covers address
  nullLeft : f.nullMask ≠ 0 → ¬ g.Covers f.nullOffset.toNat
  nullRight : g.nullMask ≠ 0 → ¬ f.Covers g.nullOffset.toNat
  nullBits : f.nullMask ≠ 0 → g.nullMask ≠ 0 → f.nullOffset = g.nullOffset →
    f.nullMask.toUInt8 &&& g.nullMask.toUInt8 = 0

structure Layout (fields : List StoolapField) : Prop where
  wellFormed : ∀ f ∈ fields, f.WellFormed
  apart : fields.Pairwise StoolapField.Apart

/-- A value of the field's own kind that has a stoolap value. -/
def StoolapField.Owns (f : StoolapField) : Scalar → Prop
  | .integer v => f.kind = .int ∧ (f.isUnsigned = true → f.length = 8 → 0 ≤ v)
  | .float _ => f.kind = .double
  | .text bytes => f.kind = .varchar ∧ ByteArray.validateUTF8 ⟨bytes.toArray⟩ = true
  | .boolean _ => False

/-- NULL in a nullable field, or a value the field takes as it is. -/
def StoolapField.Takes (f : StoolapField) : Value → Prop
  | none => f.nullMask ≠ 0
  | some value => (directBytes f value).isSome = true

instance (f : StoolapField) (address : Nat) : Decidable (f.Covers address) :=
  inferInstanceAs (Decidable (_ ∧ _))

instance (f : StoolapField) : (value : Value) → Decidable (f.Takes value)
  | none => inferInstanceAs (Decidable (_ ≠ _))
  | some _ => inferInstanceAs (Decidable (_ = _))

end StoolapMariadb.Record
