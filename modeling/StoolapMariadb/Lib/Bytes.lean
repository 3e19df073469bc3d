import Mathlib.Data.List.GetD
import Mathlib.Data.Nat.Bitwise
import Mathlib.Tactic.Ring

namespace Bytes

/-! Byte memory by address, little-endian numbers, and masks of one byte. -/

abbrev Memory := Nat → UInt8

variable {memory other : Memory} {offset count address : Nat} {bytes : List UInt8}

def read (memory : Memory) (offset count : Nat) : List UInt8 :=
  (List.range count).map fun index => memory (offset + index)

def write (memory : Memory) (offset : Nat) (bytes : List UInt8) : Memory := fun address =>
  if offset ≤ address then (bytes[address - offset]?).getD (memory address) else memory address

@[simp] theorem length_read : (read memory offset count).length = count := by
  simp only [read, List.length_map, List.length_range]

theorem getElem?_read (memory : Memory) (offset : Nat) {index : Nat} (below : index < count) :
    (read memory offset count)[index]? = some (memory (offset + index)) := by
  simp only [read, List.getElem?_map, List.getElem?_range below, Option.map_some]

theorem read_congr (same : ∀ address, offset ≤ address → address < offset + count →
    memory address = other address) : read memory offset count = read other offset count := by
  apply List.map_congr_left
  intro index member
  have below := List.mem_range.mp member
  exact same _ (Nat.le_add_right ..) (Nat.add_lt_add_left below offset)

theorem eq_of_read (same : read memory offset count = read other offset count)
    (lower : offset ≤ address) (upper : address < offset + count) : memory address = other address := by
  have below : address - offset < count := by omega
  have at_ := congrArg (fun bytes => bytes[address - offset]?) same
  simp only [getElem?_read _ _ below, Option.some.injEq] at at_
  rwa [Nat.add_sub_cancel' lower] at at_

theorem read_add (memory : Memory) (offset first second : Nat) :
    read memory offset (first + second) =
      read memory offset first ++ read memory (offset + first) second := by
  simp only [read, List.range_add, List.map_append, List.map_map, Function.comp_def, Nat.add_assoc]

theorem write_apart (apart : address < offset ∨ offset + bytes.length ≤ address) :
    write memory offset bytes address = memory address := by
  simp only [write]
  split
  · rename_i after
    rw [List.getElem?_eq_none (by omega), Option.getD_none]
  · rfl

@[simp] theorem write_singleton (memory : Memory) (offset : Nat) (byte : UInt8) :
    write memory offset [byte] offset = byte := by
  rw [write, if_pos (Nat.le_refl _), Nat.sub_self, List.getElem?_cons_zero, Option.getD_some]

@[simp] theorem read_write : read (write memory offset bytes) offset bytes.length = bytes := by
  apply List.ext_getElem?
  intro index
  rcases Nat.lt_or_ge index bytes.length with below | past
  · rw [getElem?_read _ _ below, write, if_pos (Nat.le_add_right ..), Nat.add_sub_cancel_left,
      List.getElem?_eq_getElem below, Option.getD_some]
  · rw [List.getElem?_eq_none (by rw [length_read]; exact past), List.getElem?_eq_none past]

/-- Writing what is there changes nothing. -/
theorem write_read (same : read memory offset bytes.length = bytes) : write memory offset bytes = memory := by
  funext address
  rcases Nat.lt_or_ge address offset with before | after
  · exact write_apart (.inl before)
  · rcases Nat.lt_or_ge address (offset + bytes.length) with inside | past
    · have below : address - offset < bytes.length := by omega
      have found := getElem?_read memory offset below
      rw [same, show offset + (address - offset) = address by omega] at found
      rw [write, if_pos after, found, Option.getD_some]
    · exact write_apart (.inr past)

/-- The first `count` bytes of a number. -/
def toLe : Nat → Nat → List UInt8
  | 0, _ => []
  | count + 1, value => UInt8.ofNat value :: toLe count (value / 256)

/-- The number bytes spell. -/
def fromLe : List UInt8 → Nat
  | [] => 0
  | byte :: rest => byte.toNat + 256 * fromLe rest

@[simp] theorem length_toLe (count value : Nat) : (toLe count value).length = count := by
  induction count generalizing value with
  | zero => rfl
  | succ count ih => rw [toLe, List.length_cons, ih]

theorem fromLe_toLe (count value : Nat) : fromLe (toLe count value) = value % 256 ^ count := by
  induction count generalizing value with
  | zero => rw [toLe, fromLe, pow_zero, Nat.mod_one]
  | succ count ih =>
      have first : (UInt8.ofNat value).toNat = value % 256 := UInt8.toNat_ofNat'
      rw [toLe, fromLe, ih, first, pow_succ', Nat.mod_mul]

theorem toLe_fromLe (bytes : List UInt8) : toLe bytes.length (fromLe bytes) = bytes := by
  induction bytes with
  | nil => rfl
  | cons byte rest ih =>
      have small := byte.toNat_lt
      have first : UInt8.ofNat (byte.toNat + 256 * fromLe rest) = byte := by
        apply UInt8.toNat_inj.mp
        rw [UInt8.toNat_ofNat']
        omega
      have after : (byte.toNat + 256 * fromLe rest) / 256 = fromLe rest := by omega
      rw [List.length_cons, fromLe, toLe, first, after, ih]

theorem fromLe_lt (bytes : List UInt8) : fromLe bytes < 256 ^ bytes.length := by
  induction bytes with
  | nil => exact Nat.one_pos
  | cons byte rest ih =>
      have small := byte.toNat_lt
      rw [fromLe, List.length_cons, pow_succ']
      omega

theorem fromLe_append (first second : List UInt8) :
    fromLe (first ++ second) = fromLe first + 256 ^ first.length * fromLe second := by
  induction first with
  | nil => rw [List.nil_append, fromLe, List.length_nil, pow_zero, Nat.one_mul, Nat.zero_add]
  | cons byte first ih =>
      rw [List.cons_append, fromLe, ih, fromLe, List.length_cons, pow_succ']
      ring

theorem take_toLe {fewer : Nat} (le : fewer ≤ count) (value : Nat) :
    (toLe count value).take fewer = toLe fewer value := by
  induction fewer generalizing count value with
  | zero => rw [List.take_zero, toLe]
  | succ fewer ih =>
      cases count with
      | zero => exact absurd le (Nat.not_succ_le_zero _)
      | succ count => rw [toLe, toLe, List.take_succ_cons, ih (Nat.le_of_succ_le_succ le)]

theorem toLe_fromLe_append (first second : List UInt8) :
    toLe first.length (fromLe (first ++ second)) = first := by
  have whole := toLe_fromLe (first ++ second)
  rw [List.length_append] at whole
  rw [← take_toLe (Nat.le_add_right _ second.length), whole, List.take_left]

theorem getLast?_toLe (count value : Nat) :
    (toLe (count + 1) value).getLast? = some (UInt8.ofNat (value / 256 ^ count)) := by
  induction count generalizing value with
  | zero => rw [toLe, toLe, pow_zero, Nat.div_one, List.getLast?_singleton]
  | succ count ih =>
      rw [toLe, List.getLast?_cons, ih, Option.getD_some, Nat.div_div_eq_div_mul, pow_succ']

theorem fromLe_replicate_zero (count : Nat) : fromLe (List.replicate count 0) = 0 := by
  induction count with
  | zero => rfl
  | succ count ih => rw [List.replicate_succ, fromLe, ih]; rfl

theorem fromLe_replicate_ones (count : Nat) :
    fromLe (List.replicate count 0xff) = 256 ^ count - 1 := by
  induction count with
  | zero => rfl
  | succ count ih =>
      have positive : 0 < 256 ^ count := Nat.pow_pos (by decide)
      have byte : (0xff : UInt8).toNat = 255 := rfl
      rw [List.replicate_succ, fromLe, ih, byte, pow_succ']
      omega

/-! A byte is its bits. -/

/-- A sign bit is the byte's upper half. -/
theorem and_signBit (byte : UInt8) : byte &&& 0x80 ≠ 0 ↔ 128 ≤ byte.toNat := by
  have small := byte.toNat_lt
  have masked : (byte &&& 0x80).toNat = (byte.toNat.testBit 7).toNat * 2 ^ 7 := by
    rw [← Nat.and_two_pow]
    exact UInt8.toNat_and byte 0x80
  have bit : byte.toNat.testBit 7 = decide (128 ≤ byte.toNat) := by
    rw [Nat.testBit_eq_decide_div_mod_eq, decide_eq_decide]
    omega
  rw [ne_eq, ← UInt8.toNat_inj, masked, bit]
  by_cases upper : 128 ≤ byte.toNat
  · simp [upper]
  · simp [upper]

theorem ext_bits {left right : UInt8}
    (same : ∀ index, left.toBitVec.getLsbD index = right.toBitVec.getLsbD index) : left = right :=
  UInt8.toBitVec_inj.mp (BitVec.eq_of_getLsbD_eq fun index _ => same index)

theorem bits_of_disjoint {left right : UInt8} (disjoint : left &&& right = 0) (index : Nat) :
    (left.toBitVec.getLsbD index && right.toBitVec.getLsbD index) = false := by
  have bit := congrArg (fun byte : UInt8 => byte.toBitVec.getLsbD index) disjoint
  simpa using bit

/-- Bits that a mask leaves out stay when it is set. -/
theorem or_and_of_disjoint {keep mask : UInt8} (disjoint : keep &&& mask = 0) (byte : UInt8) :
    (byte ||| mask) &&& keep = byte &&& keep := by
  apply ext_bits
  intro index
  have apart := bits_of_disjoint disjoint index
  simp only [UInt8.toBitVec_and, UInt8.toBitVec_or, BitVec.getLsbD_and, BitVec.getLsbD_or]
  revert apart
  cases byte.toBitVec.getLsbD index <;> cases keep.toBitVec.getLsbD index <;>
    cases mask.toBitVec.getLsbD index <;> decide

/-- And when it is cleared. -/
theorem and_not_and_of_disjoint {keep mask : UInt8} (disjoint : keep &&& mask = 0) (byte : UInt8) :
    (byte &&& ~~~mask) &&& keep = byte &&& keep := by
  apply ext_bits
  intro index
  have apart := bits_of_disjoint disjoint index
  rcases Nat.lt_or_ge index 8 with inside | past
  · simp only [UInt8.toBitVec_and, UInt8.toBitVec_not, BitVec.getLsbD_and, BitVec.getLsbD_not, inside,
      decide_true, Bool.true_and]
    revert apart
    cases byte.toBitVec.getLsbD index <;> cases keep.toBitVec.getLsbD index <;>
      cases mask.toBitVec.getLsbD index <;> decide
  · rw [BitVec.getLsbD_of_ge _ _ past, BitVec.getLsbD_of_ge _ _ past]

theorem or_and_self (byte mask : UInt8) : (byte ||| mask) &&& mask = mask := by
  apply ext_bits
  intro index
  simp only [UInt8.toBitVec_and, UInt8.toBitVec_or, BitVec.getLsbD_and, BitVec.getLsbD_or]
  cases byte.toBitVec.getLsbD index <;> cases mask.toBitVec.getLsbD index <;> decide

theorem and_not_and_self (byte mask : UInt8) : (byte &&& ~~~mask) &&& mask = 0 := by
  rw [UInt8.and_assoc, UInt8.not_and_self, UInt8.and_zero]

/-- Clearing what is clear changes nothing. -/
theorem and_not_of_clear {byte mask : UInt8} (clear : byte &&& mask = 0) : byte &&& ~~~mask = byte := by
  have kept := and_not_and_of_disjoint clear byte
  rwa [UInt8.and_self, UInt8.and_comm, ← UInt8.and_assoc, UInt8.and_self] at kept

/-- Setting a bit that is set changes nothing. -/
theorem or_of_set {byte mask : UInt8} {bit : Nat} (single : mask.toNat = 2 ^ bit)
    (set : byte &&& mask ≠ 0) : byte ||| mask = byte := by
  have bits (index : Nat) : mask.toBitVec.getLsbD index = decide (bit = index) := by
    change mask.toNat.testBit index = _
    rw [single, Nat.testBit_two_pow]
  have isSet : byte.toBitVec.getLsbD bit = true := by
    by_contra clear
    apply set
    apply ext_bits
    intro index
    rw [UInt8.toBitVec_and, BitVec.getLsbD_and, bits]
    by_cases same : bit = index
    · rw [← same, Bool.eq_false_iff.mpr clear]
      simp
    · simp [same]
  apply ext_bits
  intro index
  rw [UInt8.toBitVec_or, BitVec.getLsbD_or, bits]
  by_cases same : bit = index
  · rw [← same, isSet, Bool.true_or]
  · simp [same]

end Bytes
