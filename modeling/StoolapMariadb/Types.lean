import StoolapMariadb.Value

namespace StoolapMariadb.Types

/-! MariaDB's fields and how the plugin stores their values. -/

inductive RealType where
  | tiny | short | int24 | long | longlong | year
  | float | double | newDecimal
  | varchar | varString | string | tinyBlob | blob | mediumBlob | longBlob
  | date | newDate | datetime | datetime2 | time | time2 | timestamp | timestamp2
  | enum | set | other
deriving DecidableEq

def RealType.isInteger : RealType → Bool
  | .tiny | .short | .int24 | .long | .longlong => true
  | _ => false

/-- The string types the plugin's switches list together. -/
def RealType.isString : RealType → Bool
  | .varchar | .varString | .string | .tinyBlob | .blob | .mediumBlob | .longBlob => true
  | _ => false

/-- What the plugin asks of a `CHARSET_INFO`: the state bits `MY_CS_BINSORT`,
`MY_CS_NOPAD` and `MY_CS_UNICODE`, and whether it is `my_charset_bin`. -/
structure Charset where
  csName : String
  binsort : Bool
  nopad : Bool
  unicode : Bool
  isBinary : Bool
  mbminlen : Nat
  mbmaxlen : Nat
deriving DecidableEq

structure Field where
  realType : RealType
  charset : Option Charset
  isTraditionalScalarType : Bool
  fieldIndex : Nat
deriving DecidableEq

inductive Enc where
  | plain
  | packedTime
  | utcMicros
  | index
  | hex
deriving DecidableEq

def textIsUtf8 : Option Charset → Bool
  | none => false
  | some cs => if cs.unicode then cs.mbminlen = 1 else cs.csName = "ascii"

def fieldEnc (f : Field) : Enc :=
  match f.realType with
  | .date | .newDate | .datetime | .datetime2 | .time | .time2 => .packedTime
  | .timestamp | .timestamp2 => .utcMicros
  | .enum | .set => .index
  | .varchar | .varString | .string | .tinyBlob | .blob | .mediumBlob | .longBlob =>
      if textIsUtf8 f.charset then .plain
      else if !f.isTraditionalScalarType then .plain
      else .hex
  | _ => .plain

/-- Whether a hex-stored column's stoolap order, its bytes, is MariaDB's. -/
def hexKeepsOrder (f : Field) : Bool :=
  match f.charset with
  | none => true
  | some cs => cs.isBinary || cs.mbmaxlen = 1

/-- One of the digits `0123456789ABCDEF`. -/
def hexDigit (nibble : UInt8) : UInt8 :=
  if nibble < 10 then 0x30 + nibble else 0x41 + (nibble - 10)

def hexEncode (bytes : List UInt8) : List UInt8 :=
  bytes.flatMap fun byte : UInt8 => [hexDigit (byte >>> 4), hexDigit (byte &&& 15)]

/-- An integer or string field's value, `none` NULL. A string is its bytes in
the field's own character set. -/
inductive FieldValue where
  | integer (value : Int64)
  | bytes (bytes : List UInt8)
deriving DecidableEq

def encodeField (f : Field) : FieldValue → Scalar
  | .integer value => .integer value
  | .bytes bytes => .text (if fieldEnc f = .hex then hexEncode bytes else bytes)

theorem compare_hexDigit {left right : UInt8} (leftSmall : left.toNat < 16) (rightSmall : right.toNat < 16) :
    compare (hexDigit left) (hexDigit right) = compare left right := by
  have each : ∀ left right : Fin 16, compare (hexDigit (UInt8.ofNat left)) (hexDigit (UInt8.ofNat right)) =
      compare (UInt8.ofNat left) (UInt8.ofNat right) := by decide
  have := each ⟨left.toNat, leftSmall⟩ ⟨right.toNat, rightSmall⟩
  simpa using this

theorem highNibble_toNat (byte : UInt8) : (byte >>> 4).toNat = byte.toNat / 16 := by
  simp [UInt8.toNat_shiftRight, Nat.shiftRight_eq_div_pow]

theorem lowNibble_toNat (byte : UInt8) : (byte &&& 15).toNat = byte.toNat % 16 := by
  rw [UInt8.toNat_and]
  exact Nat.and_two_pow_sub_one_eq_mod _ 4

theorem compare_toNat (left right : UInt8) : compare left.toNat right.toNat = compare left right := by
  rcases h : compare left right with _ | _ | _
  · rw [Nat.compare_eq_lt]
    exact UInt8.lt_iff_toNat_lt.mp (Std.compare_eq_lt.mp h)
  · rw [Std.compare_eq_iff_eq] at h
    rw [h, Nat.compare_eq_eq]
  · rw [Nat.compare_eq_gt]
    exact UInt8.lt_iff_toNat_lt.mp (Std.compare_eq_gt.mp h)

theorem compare_nibbles (left right : UInt8) :
    (compare (left >>> 4) (right >>> 4)).then (compare (left &&& 15) (right &&& 15)) =
      compare left right := by
  rw [← compare_toNat, ← compare_toNat, ← compare_toNat, highNibble_toNat, highNibble_toNat,
    lowNibble_toNat, lowNibble_toNat]
  rcases high : compare (left.toNat / 16) (right.toNat / 16) with _ | _ | _
  · rw [Nat.compare_eq_lt] at high
    exact (Nat.compare_eq_lt.mpr (by omega)).symm
  · rw [Nat.compare_eq_eq] at high
    rcases low : compare (left.toNat % 16) (right.toNat % 16) with _ | _ | _
    · rw [Nat.compare_eq_lt] at low
      exact (Nat.compare_eq_lt.mpr (by omega)).symm
    · rw [Nat.compare_eq_eq] at low
      exact (Nat.compare_eq_eq.mpr (by omega)).symm
    · rw [Nat.compare_eq_gt] at low
      exact (Nat.compare_eq_gt.mpr (by omega)).symm
  · rw [Nat.compare_eq_gt] at high
    exact (Nat.compare_eq_gt.mpr (by omega)).symm

/-- Hex keeps the order of byte strings. -/
theorem compareBytes_hexEncode (left right : List UInt8) :
    compareBytes (hexEncode left) (hexEncode right) = compareBytes left right := by
  induction left generalizing right with
  | nil => cases right <;> rfl
  | cons byte rest ih =>
      cases right with
      | nil => rfl
      | cons other others =>
          have small (byte : UInt8) : (byte >>> 4).toNat < 16 ∧ (byte &&& 15).toNat < 16 := by
            have := byte.toNat_lt
            rw [highNibble_toNat, lowNibble_toNat]
            omega
          have tail := ih others
          simp only [hexEncode, compareBytes] at tail
          simp only [hexEncode, compareBytes, List.flatMap_cons, List.cons_append, List.nil_append,
            List.compareLex_cons_cons, tail, compare_hexDigit (small byte).1 (small other).1,
            compare_hexDigit (small byte).2 (small other).2]
          rw [← Ordering.then_assoc, compare_nibbles]

end StoolapMariadb.Types
