import StoolapMariadb.KeyParts
import StoolapMariadb.PacketCodec

namespace StoolapMariadb.HexCodec

/-! The hex a binary column is stored as, and its two ways back into the
record. -/

open StoolapMariadb.Types StoolapMariadb.KeyRead StoolapMariadb.Packet

/-- What storing a text asks of its field: its `BLOB_FLAG`, whether it is
COMPRESSED, whether its character set is handled as utf8mb4, its length in
characters, and the bytes a BLOB holds. -/
structure TextField extends Field where
  isBlob : Bool
  compressed : Bool
  utf8mb4 : Bool
  charLength : Nat
  maxDataLength : Nat

/-- The columns `create` refuses. -/
def refuseUnsupportedColumns (fields : List TextField) : Bool := fields.any fun f => f.isBlob && f.compressed

/-- How a text is stored: copied into the record, or by `Field::store`, as the
bytes it is the hex of or as it is. -/
inductive TextStore where
  | copied (bytes : List UInt8)
  | decoded (bytes : List UInt8)
  | plain (bytes : List UInt8)
deriving DecidableEq

/-- The loop of `store_text`: whether every pair is hex so far, and the bytes. A
digit that is none counts as -1. -/
def decodePairs (s : List UInt8) : Nat → Nat → List UInt8 → Bool × List UInt8
  | 0, _, bytes => (true, bytes)
  | pairs + 1, i, bytes =>
      let hi := hexNibble (s.getD (2 * i) 0)
      let lo := hexNibble (s.getD (2 * i + 1) 0)
      let bytes := bytes.set i (hi.getD 0xFF <<< 4 ||| lo.getD 0xFF)
      if hi.isSome && lo.isSome then decodePairs s pairs (i + 1) bytes else (false, bytes)

def storeText (f : TextField) (s : List UInt8) : TextStore :=
  if textIsUtf8 f.charset then
    if f.realType = .varchar && !f.compressed && f.utf8mb4 && s.length ≤ f.charLength then .copied s else .plain s
  else if fieldEnc f.toField = .hex && s.length % 2 = 0 then
    let (ok, bytes) := decodePairs s (s.length / 2) 0 (List.replicate (s.length / 2) 0)
    if ok then .decoded bytes else .plain s
  else .plain s

/-- The loop of `store_blob_owned`, which returns at the first pair that is not
hex. -/
def ownPairs (s : List UInt8) : Nat → Nat → List UInt8 → Option (List UInt8)
  | 0, _, own => some own
  | pairs + 1, i, own =>
      match hexNibble (s.getD (2 * i) 0), hexNibble (s.getD (2 * i + 1) 0) with
      | some hi, some lo => ownPairs s pairs (i + 1) (own.set i (hi <<< 4 ||| lo))
      | _, _ => none

def resize (own : List UInt8) (n : Nat) : List UInt8 := own.take n ++ List.replicate (n - own.length) 0

/-- The bytes the field then points at, nothing for a cell it does not take. -/
def storeBlobOwned (b : TextField) (cell own : List UInt8) : Option (List UInt8) :=
  if b.compressed then none
  else if cell.length < 5 then none
  else
    let tag := cell.headD 0
    if tag ≠ typeText && tag ≠ typeBlob && tag ≠ typeJson then none
    else
      let n := (pktLe32 ((cell.drop 1).take 4)).toNat
      if 5 + n > cell.length then none
      else
        let s := (cell.drop 5).take n
        let own? :=
          if tag = typeText && fieldEnc b.toField = .hex then
            if n % 2 ≠ 0 then none else ownPairs s (n / 2) 0 (resize own (n / 2))
          else some s
        own?.filter fun own => own.length ≤ b.maxDataLength

/-- A cell of the packet which holds a text: its tag, the text's length and the
text. -/
structure Carries (cell text : List UInt8) : Prop where
  tag : cell.headD 0 = typeText
  header : 5 ≤ cell.length
  whole : 5 + (pktLe32 ((cell.drop 1).take 4)).toNat ≤ cell.length
  text : (cell.drop 5).take (pktLe32 ((cell.drop 1).take 4)).toNat = text

section Loops

variable {s : List UInt8}

/-- The two loops take the same texts, for the same bytes. -/
theorem decodePairs_eq (pairs i : Nat) (bytes : List UInt8) :
    (if (decodePairs s pairs i bytes).1 then some (decodePairs s pairs i bytes).2 else none) =
      ownPairs s pairs i bytes := by
  induction pairs generalizing i bytes with
  | zero => rfl
  | succ pairs ih =>
      rw [decodePairs, ownPairs]
      generalize hexNibble (s.getD (2 * i) 0) = high
      generalize hexNibble (s.getD (2 * i + 1) 0) = low
      cases high with
      | none => rfl
      | some high =>
          cases low with
          | none => rfl
          | some low => exact ih (i + 1) _

/-- What is left of the text is decoded over what is left of the bytes. -/
theorem ownPairs_eq {first rest done room : List UInt8} (whole : s = first ++ rest)
    (read : first.length = 2 * done.length) (enough : rest.length = 2 * room.length) :
    ownPairs s room.length done.length (done ++ room) = (hexDecode rest).map (done ++ ·) := by
  induction room generalizing first rest done with
  | nil =>
      rw [List.length_nil, Nat.mul_zero] at enough
      rw [List.length_eq_zero_iff.mp enough]
      simp [ownPairs, hexDecode]
  | cons byte room ih =>
      rw [List.length_cons] at enough
      rcases rest with _ | ⟨high, _ | ⟨low, rest⟩⟩
      · rw [List.length_nil] at enough
        omega
      · rw [List.length_singleton] at enough
        omega
      · have highHere : s.getD (2 * done.length) 0 = high := by
          rw [whole, ← read]
          simp
        have lowHere : s.getD (2 * done.length + 1) 0 = low := by
          rw [whole, ← read]
          simp
        rw [List.length_cons, ownPairs, highHere, lowHere, hexDecode]
        cases hexNibble high with
        | none => rfl
        | some high' =>
            cases hexNibble low with
            | none => rfl
            | some low' =>
                have joined := @ih (first ++ [high, low]) rest (done ++ [high' <<< 4 ||| low'])
                  (by simp [whole]) (by simp; omega) (by simp at enough; omega)
                have placed : (done ++ byte :: room).set done.length (high' <<< 4 ||| low') =
                    done ++ [high' <<< 4 ||| low'] ++ room := by
                  simp
                rw [List.length_append, List.length_singleton] at joined
                dsimp only
                rw [placed, joined]
                cases hexDecode rest <;> simp

/-- Only a text of even length is hex. -/
theorem hexDecode_length {bytes : List UInt8} (decoded : hexDecode s = some bytes) :
    s.length = 2 * bytes.length := by
  induction s using hexDecode.induct generalizing bytes with
  | case1 =>
      cases decoded
      rfl
  | case2 => cases decoded
  | case3 high low rest high' low' rest' isRest isLow isHigh ih =>
      simp only [hexDecode, isHigh, isLow, isRest, Option.some.injEq] at decoded
      have shorter := ih isRest
      rw [← decoded, List.length_cons, List.length_cons, List.length_cons]
      omega
  | case4 high low rest broken ih =>
      rw [hexDecode] at decoded
      split at decoded
      · rename_i isHigh isLow isRest
        exact (broken _ _ _ isHigh isLow isRest).elim
      · cases decoded

theorem hexDecode_odd (odd : s.length % 2 ≠ 0) : hexDecode s = none := by
  cases decoded : hexDecode s with
  | none => rfl
  | some bytes =>
      have even := hexDecode_length decoded
      omega

/-- Each loop is `hexDecode`, whatever is in the bytes before. -/
theorem ownPairs_whole {room : List UInt8} (even : s.length % 2 = 0) (enough : room.length = s.length / 2) :
    ownPairs s (s.length / 2) 0 room = hexDecode s := by
  have run := @ownPairs_eq s [] s [] room rfl rfl (by omega)
  rw [enough] at run
  rw [List.length_nil, List.nil_append] at run
  rw [run]
  cases hexDecode s <;> rfl

end Loops

section Column

variable {f : TextField}

theorem notUtf8_of_hex (hex : fieldEnc f.toField = .hex) : textIsUtf8 f.charset = false := by
  cases utf8 : textIsUtf8 f.charset with
  | false => rfl
  | true =>
      rw [fieldEnc, utf8] at hex
      split at hex <;> cases hex

theorem storeText_hex (hex : fieldEnc f.toField = .hex) (text : List UInt8) :
    storeText f text = ((hexDecode text).elim (.plain text) .decoded) := by
  rw [storeText, notUtf8_of_hex hex, if_neg Bool.false_ne_true]
  by_cases even : text.length % 2 = 0
  · have loop := @decodePairs_eq text (text.length / 2) 0 (List.replicate (text.length / 2) 0)
    rw [ownPairs_whole even (List.length_replicate)] at loop
    rw [← loop]
    simp only [hex, even, decide_true, Bool.and_self, if_true]
    cases (decodePairs text (text.length / 2) 0 (List.replicate (text.length / 2) 0)).1 <;> rfl
  · rw [hexDecode_odd even]
    simp [even]

theorem resize_length (own : List UInt8) (n : Nat) : (resize own n).length = n := by
  rw [resize, List.length_append, List.length_take, List.length_replicate]
  omega

theorem storeBlobOwned_hex {cell text : List UInt8} (hex : fieldEnc f.toField = .hex) (stored : f.compressed = false)
    (carries : Carries cell text) (own : List UInt8) :
    storeBlobOwned f cell own = (hexDecode text).filter fun bytes => bytes.length ≤ f.maxDataLength := by
  have header := carries.header
  have whole := carries.whole
  have long : (pktLe32 ((cell.drop 1).take 4)).toNat = text.length := by
    rw [← carries.text, List.length_take, List.length_drop]
    omega
  rw [storeBlobOwned, stored, if_neg Bool.false_ne_true, if_neg (by omega)]
  simp only [carries.tag, carries.text, hex, decide_true, Bool.and_self, if_true]
  rw [if_neg (by decide), if_neg (by omega), long]
  by_cases even : text.length % 2 = 0
  · rw [if_neg (not_not_intro even), ownPairs_whole even (resize_length own _)]
  · rw [if_pos even, hexDecode_odd even]

end Column

theorem carries_packedValue {text : List UInt8} (short : text.length < 2 ^ 32) :
    Carries (packedValue (some (.text text))) text := by
  have size : (pktLe32 ((List.drop 1 (packedValue (some (.text text)))).take 4)).toNat = text.length := by
    rw [packedValue, List.drop_succ_cons, List.drop_zero, List.take_left' (Bytes.length_toLe 4 _), pktLe32_toLe]
    simp only [UInt32.toNat_ofNat']
    omega
  refine ⟨rfl, ?_, ?_, ?_⟩
  · simp [packedValue]
  · rw [size]
    simp [packedValue]
    omega
  · rw [size]
    simp [packedValue]

theorem hexEncode_injective {left right : List UInt8} (same : hexEncode left = hexEncode right) : left = right := by
  rw [← compareBytes_eq_eq, ← compareBytes_hexEncode, same]
  exact compareBytes_eq_eq.mpr rfl

/-- For every column hex is stored for, of a table `create` accepts: what is
encoded is decoded again, hex keeps equality and order, and the decoders take
the same texts. -/
theorem hex_codec {fields : List TextField} {f : TextField} (accepted : refuseUnsupportedColumns fields = false)
    (listed : f ∈ fields) (hex : fieldEnc f.toField = .hex) :
    (∀ left right, encodeField f.toField (.bytes left) = .text (hexEncode left) ∧
      storeText f (hexEncode left) = .decoded left ∧
      (hexEncode left = hexEncode right → left = right) ∧
      (compareBytes (hexEncode left) (hexEncode right) = .lt ↔ compareBytes left right = .lt)) ∧
    (f.isBlob = true → ∀ cell text own, Carries cell text →
      (∀ bytes, text = hexEncode bytes → bytes.length ≤ f.maxDataLength → storeBlobOwned f cell own = some bytes) ∧
      ∀ bytes, storeBlobOwned f cell own = some bytes ↔
        storeText f text = .decoded bytes ∧ bytes.length ≤ f.maxDataLength) := by
  refine ⟨fun left right => ⟨?_, ?_, hexEncode_injective, ?_⟩, ?_⟩
  · rw [encodeField, if_pos hex]
  · rw [storeText_hex hex, hexDecode_hexEncode]
    rfl
  · rw [compareBytes_hexEncode]
  · intro blob cell text own carries
    have stored : f.compressed = false := by
      have each := List.any_eq_false.mp accepted f listed
      rwa [blob, Bool.true_and, Bool.not_eq_true] at each
    rw [storeBlobOwned_hex hex stored carries, storeText_hex hex]
    refine ⟨?_, fun bytes => ?_⟩
    · rintro bytes rfl fits
      rw [hexDecode_hexEncode]
      simp [fits]
    · cases hexDecode text with
      | none => simp
      | some decoded =>
          simp only [Option.filter_eq_some_iff, Option.some.injEq, decide_eq_true_eq, Option.elim_some,
            TextStore.decoded.injEq]

/-- A BLOB, whose character set is the binary one. -/
def sampleBlob : TextField where
  realType := .blob
  charset := some
    { csName := "binary", binsort := true, nopad := true, unicode := false, isBinary := true, mbminlen := 1
      mbmaxlen := 1 }
  isTraditionalScalarType := true
  fieldIndex := 0
  isBlob := true
  compressed := false
  utf8mb4 := false
  charLength := 65535
  maxDataLength := 65535

/-- Lower case digits are decoded too, and an odd length is not. -/
example : storeText sampleBlob [0x66, 0x46] = .decoded [0xFF] ∧ storeText sampleBlob [0x66] = .plain [0x66] := by
  decide

theorem hex_codec_sample :
    storeText sampleBlob (hexEncode [0x00, 0xFF]) = .decoded [0x00, 0xFF] ∧
    storeBlobOwned sampleBlob (packedValue (some (.text (hexEncode [0x00, 0xFF])))) [9, 9, 9] = some [0x00, 0xFF] := by
  obtain ⟨text, blob⟩ := @hex_codec [sampleBlob] sampleBlob (by decide) (List.mem_singleton_self _) (by decide)
  have carries : Carries (packedValue (some (.text (hexEncode [0x00, 0xFF])))) (hexEncode [0x00, 0xFF]) :=
    carries_packedValue (by decide)
  exact ⟨(text [0x00, 0xFF] []).2.1, (blob rfl _ _ [9, 9, 9] carries).1 [0x00, 0xFF] rfl (by decide)⟩

end StoolapMariadb.HexCodec
