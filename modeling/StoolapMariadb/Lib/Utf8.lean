import Mathlib.Data.List.Basic

namespace StoolapMariadb.Utf8

/-! The UTF-8 of a character by its bytes: one that leads and those that
continue it, with the top bits set past ASCII. -/

def encode (chars : List Char) : List UInt8 := chars.flatMap String.utf8EncodeChar

@[simp] theorem encode_nil : encode [] = [] := rfl

@[simp] theorem encode_cons (c : Char) (chars : List Char) :
    encode (c :: chars) = String.utf8EncodeChar c ++ encode chars := rfl

/-- The bits of a byte under a mask that the variable part does not reach. -/
theorem or_and_of_clear (low mask high top : UInt8) (clear : mask &&& top = 0) :
    (low &&& mask ||| high) &&& top = high &&& top := by
  rw [← UInt8.toNat_inj] at clear ⊢
  simp only [UInt8.toNat_and, UInt8.toNat_or] at clear ⊢
  rw [Nat.and_or_distrib_right, Nat.and_assoc, clear]
  simp

theorem continuation_bits (low : UInt8) : (low &&& 0x3f ||| 0x80) &&& 0xC0 = 0x80 :=
  or_and_of_clear low 0x3f 0x80 0xC0 (by decide)

theorem lead_bits (low mask high : UInt8) (clear : mask &&& 0xC0 = 0) (top : high &&& 0xC0 = 0xC0) :
    (low &&& mask ||| high) &&& 0xC0 ≠ 0x80 := by
  rw [or_and_of_clear low mask high 0xC0 clear, top]
  decide

theorem toNat_toUInt8_of_ascii {c : Char} (ascii : c.utf8Size = 1) :
    c.val.toUInt8.toNat = c.toNat ∧ c.toNat < 128 := by
  have small : c.toNat < 128 := by
    have bound := UInt32.le_iff_toNat_le.mp (Char.utf8Size_eq_one_iff.mp ascii)
    have value : c.val.toNat = c.toNat := rfl
    have limit : (127 : UInt32).toNat = 127 := rfl
    omega
  refine ⟨?_, small⟩
  rw [UInt32.toNat_toUInt8]
  exact Nat.mod_eq_of_lt (Nat.lt_trans small (by decide))

theorem size_cases (c : Char) : c.utf8Size = 1 ∨ c.utf8Size = 2 ∨ c.utf8Size = 3 ∨ c.utf8Size = 4 := by
  have positive := c.utf8Size_pos
  have most := c.utf8Size_le_four
  omega

/-- One byte leads a character, and the others continue it. -/
theorem utf8EncodeChar_shape (c : Char) :
    ∃ lead tail, String.utf8EncodeChar c = lead :: tail ∧ lead &&& 0xC0 ≠ 0x80 ∧
      ∀ byte ∈ tail, byte &&& 0xC0 = 0x80 := by
  rcases size_cases c with size | size | size | size
  · refine ⟨_, [], String.utf8EncodeChar_eq_singleton size, fun continues => ?_, by simp⟩
    obtain ⟨value, small⟩ := toNat_toUInt8_of_ascii size
    have bits := congrArg UInt8.toNat continues
    rw [UInt8.toNat_and] at bits
    have most : c.val.toUInt8.toNat &&& (0xC0 : UInt8).toNat ≤ c.val.toUInt8.toNat := Nat.and_le_left
    have high : (0x80 : UInt8).toNat = 128 := rfl
    omega
  · exact ⟨_, _, String.utf8EncodeChar_eq_cons_cons size, lead_bits _ _ _ (by decide) (by decide),
      by simp [continuation_bits]⟩
  · exact ⟨_, _, String.utf8EncodeChar_eq_cons_cons_cons size, lead_bits _ _ _ (by decide) (by decide),
      by simp [continuation_bits]⟩
  · exact ⟨_, _, String.utf8EncodeChar_eq_cons_cons_cons_cons size, lead_bits _ _ _ (by decide) (by decide),
      by simp [continuation_bits]⟩

/-- Past ASCII every byte has its top bit. -/
theorem utf8EncodeChar_wide {c : Char} (wide : c.utf8Size ≠ 1) :
    ∀ byte ∈ String.utf8EncodeChar c, byte &&& 0x80 = 0x80 := by
  have top (low mask high : UInt8) (clear : mask &&& 0x80 = 0) (set : high &&& 0x80 = 0x80) :
      (low &&& mask ||| high) &&& 0x80 = 0x80 := by
    rw [or_and_of_clear low mask high 0x80 clear, set]
  rcases size_cases c with size | size | size | size
  · exact absurd size wide
  · rw [String.utf8EncodeChar_eq_cons_cons size]
    simp [top _ _ _ (by decide : (0x1f : UInt8) &&& 0x80 = 0) (by decide : (0xc0 : UInt8) &&& 0x80 = 0x80),
      top _ _ _ (by decide : (0x3f : UInt8) &&& 0x80 = 0) (by decide : (0x80 : UInt8) &&& 0x80 = 0x80)]
  · rw [String.utf8EncodeChar_eq_cons_cons_cons size]
    simp [top _ _ _ (by decide : (0x0f : UInt8) &&& 0x80 = 0) (by decide : (0xe0 : UInt8) &&& 0x80 = 0x80),
      top _ _ _ (by decide : (0x3f : UInt8) &&& 0x80 = 0) (by decide : (0x80 : UInt8) &&& 0x80 = 0x80)]
  · rw [String.utf8EncodeChar_eq_cons_cons_cons_cons size]
    simp [top _ _ _ (by decide : (0x07 : UInt8) &&& 0x80 = 0) (by decide : (0xf0 : UInt8) &&& 0x80 = 0x80),
      top _ _ _ (by decide : (0x3f : UInt8) &&& 0x80 = 0) (by decide : (0x80 : UInt8) &&& 0x80 = 0x80)]

/-- The bytes of a character are those of some ASCII characters just when it
is one of these. -/
theorem utf8EncodeChar_among {chars : List Char} (ascii : ∀ c ∈ chars, c.utf8Size = 1) (c : Char) :
    (∀ byte ∈ String.utf8EncodeChar c, byte ∈ chars.map fun c => c.val.toUInt8) ↔ c ∈ chars := by
  constructor
  · intro among
    by_cases size : c.utf8Size = 1
    · rw [String.utf8EncodeChar_eq_singleton size] at among
      obtain ⟨other, otherIn, same⟩ := List.mem_map.mp (among _ List.mem_cons_self)
      obtain ⟨value, -⟩ := toNat_toUInt8_of_ascii size
      obtain ⟨otherValue, -⟩ := toNat_toUInt8_of_ascii (ascii other otherIn)
      have values : other.toNat = c.toNat := by rw [← otherValue, ← value, same]
      rwa [Char.toNat_inj.mp values] at otherIn
    · obtain ⟨lead, tail, bytes, -⟩ := utf8EncodeChar_shape c
      have top := utf8EncodeChar_wide size lead (by simp [bytes])
      obtain ⟨other, otherIn, rfl⟩ := List.mem_map.mp (among lead (by simp [bytes]))
      obtain ⟨value, small⟩ := toNat_toUInt8_of_ascii (ascii other otherIn)
      have bits := congrArg UInt8.toNat top
      rw [UInt8.toNat_and] at bits
      have most : other.val.toUInt8.toNat &&& (0x80 : UInt8).toNat ≤ other.val.toUInt8.toNat := Nat.and_le_left
      have high : (0x80 : UInt8).toNat = 128 := rfl
      omega
  · intro member byte byteIn
    rw [String.utf8EncodeChar_eq_singleton (ascii c member)] at byteIn
    rw [List.mem_singleton.mp byteIn]
    exact List.mem_map_of_mem member

end StoolapMariadb.Utf8

namespace StoolapMariadb

/-- The bytes of a string. -/
def utf8 (text : String) : List UInt8 := text.toByteArray.data.toList

def decodeUtf8 (bytes : List UInt8) : Option String := String.fromUTF8? ⟨bytes.toArray⟩

theorem decode_utf8 (text : String) : decodeUtf8 (utf8 text) = some text := by
  have whole : (⟨(utf8 text).toArray⟩ : ByteArray) = text.toByteArray := rfl
  rw [decodeUtf8, whole, String.fromUTF8?, dif_pos text.isValidUTF8]
  rfl

theorem utf8_decode {bytes : List UInt8} {text : String} (decoded : decodeUtf8 bytes = some text) : utf8 text = bytes := by
  rw [decodeUtf8, String.fromUTF8?] at decoded
  split at decoded
  · cases decoded
    rfl
  · cases decoded

theorem utf8_append (left right : String) : utf8 (left ++ right) = utf8 left ++ utf8 right := by
  simp [utf8]

theorem utf8_encode (text : String) : utf8 text = Utf8.encode text.toList := by
  rw [utf8, ← String.utf8Encode_toList, List.utf8Encode, Utf8.encode]
  simp

theorem utf8_ascii {chars : List Char} (ascii : ∀ c ∈ chars, c.utf8Size = 1) :
    utf8 (String.ofList chars) = chars.map fun c => c.val.toUInt8 := by
  rw [utf8_encode, String.toList_ofList]
  induction chars with
  | nil => rfl
  | cons c chars ih =>
      obtain ⟨here, later⟩ := List.forall_mem_cons.mp ascii
      rw [Utf8.encode_cons, ih later, String.utf8EncodeChar_eq_singleton here]
      rfl

end StoolapMariadb
