import StoolapMariadb.Value
import StoolapMariadb.Lib.Bytes
import StoolapMariadb.Lib.Reading

namespace StoolapMariadb.Packet

/-! The packed result format, as stoolap writes it and the plugin reads it. -/

open Reading

def typeNull : UInt8 := 0
def typeInteger : UInt8 := 1
def typeFloat : UInt8 := 2
def typeText : UInt8 := 3
def typeBoolean : UInt8 := 4
def typeTimestamp : UInt8 := 5
def typeJson : UInt8 := 6
def typeBlob : UInt8 := 7

/-- The column names and a row count to be patched, with where it stands. -/
def writeHeader (names : List (List UInt8)) (buf : List UInt8) : List UInt8 × Nat :=
  let buf := buf ++ Bytes.toLe 4 (names.length % 2 ^ 32)
  let buf := names.foldl (fun buf name => buf ++ Bytes.toLe 2 (name.length % 2 ^ 16) ++ name) buf
  (buf ++ Bytes.toLe 4 0, buf.length)

/-- One cell: a type tag and its payload. -/
def packedValue : Value → List UInt8
  | none => [typeNull]
  | some (.integer v) => typeInteger :: Bytes.toLe 8 v.toUInt64.toNat
  | some (.float bits) => typeFloat :: Bytes.toLe 8 bits.toNat
  | some (.text s) => typeText :: (Bytes.toLe 4 (s.length % 2 ^ 32) ++ s)
  | some (.boolean value) => [typeBoolean, if value then 1 else 0]

def writeValue (value : Value) (buf : List UInt8) : List UInt8 := buf ++ packedValue value

/-- A result: its rows, and the error it ends with. -/
structure Rows where
  rows : List Row
  error : Option String

/-- The rows up to `maxRows`, counted. -/
def writeEachRow (colCount maxRows : Nat) : List Row → UInt32 → List UInt8 → UInt32 × List UInt8
  | [], rowCount, buf => (rowCount, buf)
  | row :: rows, rowCount, buf =>
      if rowCount.toNat < maxRows then
        writeEachRow colCount maxRows rows (rowCount + 1)
          ((List.range colCount).foldl (fun buf i => writeValue (row.value i) buf) buf)
      else (rowCount, buf)

/-- `buf[at_..at_ + bytes.len()].copy_from_slice(bytes)`. -/
def patch (buf : List UInt8) (at_ : Nat) (bytes : List UInt8) : List UInt8 :=
  buf.take at_ ++ bytes ++ buf.drop (at_ + bytes.length)

def writeRows (rows : Rows) (colCount maxRows countAt : Nat) (buf : List UInt8) :
    Except String (UInt32 × List UInt8) :=
  let (rowCount, buf) := writeEachRow colCount maxRows rows.rows 0 buf
  match rows.error with
  | some error =>
      if rowCount.toNat < maxRows then .error error
      else .ok (rowCount, patch buf countAt (Bytes.toLe 4 rowCount.toNat))
  | none => .ok (rowCount, patch buf countAt (Bytes.toLe 4 rowCount.toNat))

def usizeMax : Nat := 2 ^ 64 - 1

def packAll (names : List (List UInt8)) (rows : Rows) : Except String (UInt32 × List UInt8) :=
  let (buf, countAt) := writeHeader names []
  writeRows rows names.length usizeMax countAt buf

/-- Why a read fails: the buffer ends, the tag is unknown, or a byte past the
buffer's end was read. -/
inductive Fault where
  | truncated
  | unsupported
  | outside
deriving DecidableEq

/-- `r |= p[i] << (i * 8)` for each byte. -/
def orBytes : UInt64 → Nat → List UInt8 → UInt64
  | r, _, [] => r
  | r, i, byte :: bytes => orBytes (r ||| (byte.toUInt64 <<< UInt64.ofNat (i * 8))) (i + 1) bytes

def pktLe64 (bytes : List UInt8) : UInt64 := orBytes 0 0 bytes

def pktLe32 (bytes : List UInt8) : UInt32 := (pktLe64 bytes).toUInt32

def pktLe16 (bytes : List UInt8) : UInt16 := (pktLe64 bytes).toUInt16

def pktI64 (bytes : List UInt8) : Int64 := (pktLe64 bytes).toInt64

def byteAt (buf : List UInt8) (pos : Nat) : Except Fault UInt8 :=
  match buf[pos]? with
  | some byte => .ok byte
  | none => .error .outside

def bytesAt (buf : List UInt8) (pos : Nat) : Nat → Except Fault (List UInt8)
  | 0 => .ok []
  | count + 1 => do
      let byte ← byteAt buf pos
      return byte :: (← bytesAt buf (pos + 1) count)

/-- `count` bytes are there: the position moves past them. -/
def skip (count : Nat) : Read UInt8 Fault Unit := fun buf => do
  let pos ← get
  if pos + count > buf.length then throw .truncated
  else set (pos + count)

def take (count : Nat) : Read UInt8 Fault (List UInt8) := fun buf => do
  let pos ← get
  skip count buf
  bytesAt buf pos count

def takeByte : Read UInt8 Fault UInt8 := fun buf => (List.headD · 0) <$> take 1 buf

def skipNames : Nat → Read UInt8 Fault Unit
  | 0, _ => return ()
  | cols + 1, buf => do
      let nlen := pktLe16 (← take 2 buf)
      skip nlen.toNat buf
      skipNames cols buf

def pktParseHeader : Read UInt8 Fault UInt32 := fun buf => do
  let cols := pktLe32 (← take 4 buf)
  skipNames cols.toNat buf
  return cols

/-- What a cell calls on its field: `set_null`, or a store. A timestamp is
stored as the text of its nanoseconds. -/
inductive FieldStore where
  | setNull
  | storeLonglong (value : Int64)
  | storeInt (value : Int64)
  | storeDouble (bits : UInt64)
  | storeText (bytes : List UInt8)
  | storeBytes (bytes : List UInt8)
  | storeTimestamp (nanos : Int64)
deriving DecidableEq

/-- The payload of a cell of the tag. -/
def pktPayload (maybeNull : Bool) (tag : UInt8) : Read UInt8 Fault FieldStore := fun buf =>
  if tag = typeNull then return if maybeNull then .setNull else .storeLonglong 0
  else if tag = typeInteger then (fun bytes => .storeInt (pktI64 bytes)) <$> take 8 buf
  else if tag = typeFloat then (fun bytes => .storeDouble (pktLe64 bytes)) <$> take 8 buf
  else if tag = typeBoolean then (fun b => .storeLonglong (if b ≠ 0 then 1 else 0)) <$> takeByte buf
  else if tag = typeText || tag = typeJson then do
    let bl := pktLe32 (← take 4 buf)
    .storeText <$> take bl.toNat buf
  else if tag = typeBlob then do
    let bl := pktLe32 (← take 4 buf)
    .storeBytes <$> take bl.toNat buf
  else if tag = typeTimestamp then (fun bytes => .storeTimestamp (pktI64 bytes)) <$> take 8 buf
  else throw .unsupported

/-- One cell into a field. -/
def pktStoreValue (maybeNull : Bool) : Read UInt8 Fault FieldStore := fun buf => do
  let tag ← takeByte buf
  pktPayload maybeNull tag buf

/-- What reading a buffer gives: the cells up to the first that cannot be read,
and the position after the last or the failure. -/
inductive Decoded where
  | noHeader (fault : Fault)
  | noCount (cols : UInt32) (fault : Fault)
  | rows (cols rowCount : UInt32) (stores : List FieldStore) (last : Except Fault Nat)

/-- The header, the row count, and the cells row by row into fields that take
NULL or not. -/
def readPacket (maybeNull : Nat → Bool) (buf : List UInt8) : Decoded :=
  match pktParseHeader buf 0 with
  | .error fault => .noHeader fault
  | .ok (cols, pos) =>
      match take 4 buf pos with
      | .error fault => .noCount cols fault
      | .ok (bytes, pos) =>
          let rowCount := pktLe32 bytes
          let row := (List.range cols.toNat).map fun column => pktStoreValue (maybeNull column)
          let (stores, last) := readEach buf (List.replicate rowCount.toNat row).flatten pos
          .rows cols rowCount stores last

end StoolapMariadb.Packet
