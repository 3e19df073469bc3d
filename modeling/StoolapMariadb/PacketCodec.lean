import StoolapMariadb.Packet
import Mathlib.Data.Nat.Bitwise

namespace StoolapMariadb.Packet

/-! What stoolap packs is what the plugin reads, and a buffer that ends early
is read up to the cell it ends in. -/

open Reading
open StateExcept

section Bytes

/-- The shifted bytes do not overlap. -/
theorem orBytes_toNat {r : UInt64} {i : Nat} {bytes : List UInt8} (small : r.toNat < 2 ^ (i * 8))
    (short : i + bytes.length ≤ 8) :
    (orBytes r i bytes).toNat = r.toNat + 2 ^ (i * 8) * Bytes.fromLe bytes := by
  induction bytes generalizing r i with
  | nil => rw [orBytes, Bytes.fromLe, Nat.mul_zero, Nat.add_zero]
  | cons byte bytes ih =>
      rw [List.length_cons] at short
      have below := byte.toNat_lt
      have shift : (UInt64.ofNat (i * 8)).toNat % 64 = i * 8 := by
        rw [UInt64.toNat_ofNat']
        omega
      have inWord : 2 ^ (i * 8) * byte.toNat < 2 ^ 64 := by
        have power : 2 ^ (i * 8) * 2 ^ 8 ≤ 2 ^ 64 := by
          rw [← pow_add]
          exact Nat.pow_le_pow_right (by decide) (by omega)
        have scaled : 2 ^ (i * 8) * byte.toNat < 2 ^ (i * 8) * 2 ^ 8 :=
          Nat.mul_lt_mul_of_pos_left below (Nat.two_pow_pos _)
        omega
      have joined : (r ||| (byte.toUInt64 <<< UInt64.ofNat (i * 8))).toNat = r.toNat + 2 ^ (i * 8) * byte.toNat := by
        rw [UInt64.toNat_or, UInt64.toNat_shiftLeft, shift, UInt8.toNat_toUInt64, Nat.shiftLeft_eq, Nat.mul_comm,
          Nat.mod_eq_of_lt inWord, Nat.or_comm, ← Nat.two_pow_add_eq_or_of_lt small, Nat.add_comm]
      have next : r.toNat + 2 ^ (i * 8) * byte.toNat < 2 ^ ((i + 1) * 8) := by
        have power : 2 ^ ((i + 1) * 8) = 2 ^ (i * 8) * 256 := by
          rw [Nat.add_mul, pow_add]
          rfl
        rw [power]
        calc r.toNat + 2 ^ (i * 8) * byte.toNat < 2 ^ (i * 8) + 2 ^ (i * 8) * byte.toNat := by omega
          _ = 2 ^ (i * 8) * (byte.toNat + 1) := by ring
          _ ≤ 2 ^ (i * 8) * 256 := Nat.mul_le_mul_left _ (by omega)
      rw [orBytes, ih (by rw [joined]; exact next) (by omega), joined, Bytes.fromLe, Nat.add_mul, pow_add]
      ring

theorem pktLe64_toNat {bytes : List UInt8} (short : bytes.length ≤ 8) :
    (pktLe64 bytes).toNat = Bytes.fromLe bytes := by
  have joined := @orBytes_toNat 0 0 bytes (by decide) (by rwa [Nat.zero_add])
  rw [pktLe64, joined]
  simp

theorem pktLe64_toLe (bits : UInt64) : pktLe64 (Bytes.toLe 8 bits.toNat) = bits := by
  apply UInt64.toNat_inj.mp
  rw [pktLe64_toNat (by simp), Bytes.fromLe_toLe]
  exact Nat.mod_eq_of_lt bits.toNat_lt

theorem pktLe32_toLe (n : Nat) : pktLe32 (Bytes.toLe 4 n) = UInt32.ofNat n := by
  apply UInt32.toNat_inj.mp
  rw [pktLe32, UInt64.toNat_toUInt32, pktLe64_toNat (by simp), Bytes.fromLe_toLe, UInt32.toNat_ofNat']
  omega

theorem pktLe16_toLe (n : Nat) : pktLe16 (Bytes.toLe 2 n) = UInt16.ofNat n := by
  apply UInt16.toNat_inj.mp
  rw [pktLe16, UInt64.toNat_toUInt16, pktLe64_toNat (by simp), Bytes.fromLe_toLe, UInt16.toNat_ofNat']
  omega

theorem pktI64_toLe (v : Int64) : pktI64 (Bytes.toLe 8 v.toUInt64.toNat) = v := by
  rw [pktI64, pktLe64_toLe]
  simp

end Bytes

section Reads

/-- The bytes are read where they stand. -/
theorem bytesAt_append (before bytes after : List UInt8) :
    bytesAt (before ++ bytes ++ after) before.length bytes.length = .ok bytes := by
  induction bytes generalizing before with
  | nil => rfl
  | cons byte bytes ih =>
      have here : byteAt (before ++ byte :: bytes ++ after) before.length = .ok byte := by
        simp [byteAt]
      have rest := ih (before ++ [byte])
      simp only [List.append_assoc, List.cons_append, List.nil_append, List.length_append, List.length_cons,
        List.length_nil, Nat.zero_add] at here rest ⊢
      simp only [bytesAt, here, rest, bind, Except.bind, pure, Except.pure]

theorem skip_eq (count pos : Nat) (buf : List UInt8) :
    skip count buf pos = if pos + count > buf.length then .error .truncated else .ok ((), pos + count) := by
  change (if pos + count > buf.length then throw .truncated else set (pos + count) : StateT Nat (Except Fault) Unit)
    pos = _
  split <;> rfl

theorem take_eq (count pos : Nat) (buf : List UInt8) :
    take count buf pos = do
      let past ← skip count buf pos
      let bytes ← bytesAt buf pos count
      return (bytes, past.2) :=
  rfl

theorem skip_codes (bytes : List UInt8) : Codes .truncated (skip bytes.length) bytes () where
  whole before after := by
    rw [skip_eq, if_neg (by simp only [List.length_append]; omega)]
  cut before part begins proper := by
    have shorter := begins.length_le
    have differ : part.length ≠ bytes.length := fun same => proper (begins.eq_of_length same)
    rw [skip_eq, if_pos (by simp only [List.length_append]; omega)]

theorem take_codes (bytes : List UInt8) : Codes .truncated (take bytes.length) bytes bytes where
  whole before after := by
    rw [take_eq, (skip_codes bytes).whole before after, bytesAt_append]
    rfl
  cut before part begins proper := by
    rw [take_eq, (skip_codes bytes).cut before part begins proper]
    rfl

theorem takeByte_codes (byte : UInt8) : Codes .truncated takeByte [byte] byte :=
  (take_codes [byte]).map (List.headD · 0)

/-- `count` little-endian bytes spelling a number, and as many bytes as that. -/
theorem counted_codes {α : Type} (f : List UInt8 → α) {bytes : List UInt8} (short : bytes.length < 2 ^ 32) :
    Codes .truncated (fun buf => take 4 buf >>= fun count => f <$> take (pktLe32 count).toNat buf)
      (Bytes.toLe 4 (bytes.length % 2 ^ 32) ++ bytes) (f bytes) := by
  have count := take_codes (Bytes.toLe 4 (bytes.length % 2 ^ 32))
  rw [Bytes.length_toLe] at count
  have length : (pktLe32 (Bytes.toLe 4 (bytes.length % 2 ^ 32))).toNat = bytes.length := by
    rw [pktLe32_toLe, UInt32.toNat_ofNat']
    omega
  refine count.bind ?_
  rw [length]
  exact (take_codes bytes).map f

end Reads

section Cells

/-- What a cell stores. -/
def stored (maybeNull : Bool) : Value → FieldStore
  | none => if maybeNull then .setNull else .storeLonglong 0
  | some (.integer v) => .storeInt v
  | some (.float bits) => .storeDouble bits
  | some (.text bytes) => .storeText bytes
  | some (.boolean value) => .storeLonglong (if value then 1 else 0)

/-- A field that takes NULL tells the cell. -/
theorem stored_injective : Function.Injective (stored true) := by
  intro left right same
  rcases left with _ | ⟨_ | _ | _ | left⟩ <;> rcases right with _ | ⟨_ | _ | _ | right⟩ <;>
    simp [stored] at same ⊢ <;> first | exact same | grind

/-- A text under 4 GiB. -/
def Short : Value → Prop
  | some (.text bytes) => bytes.length < 2 ^ 32
  | _ => True

theorem eight_codes {α : Type} (f : List UInt8 → α) (n : Nat) :
    Codes .truncated (fun buf => f <$> take 8 buf) (Bytes.toLe 8 n) (f (Bytes.toLe 8 n)) := by
  have eight := take_codes (Bytes.toLe 8 n)
  rw [Bytes.length_toLe] at eight
  exact eight.map f

theorem payload_codes (maybeNull : Bool) {value : Value} (short : Short value) :
    ∃ tag payload, packedValue value = tag :: payload ∧
      Codes .truncated (pktPayload maybeNull tag) payload (stored maybeNull value) := by
  cases value with
  | none => exact ⟨_, _, rfl, .pure _ _⟩
  | some scalar =>
      cases scalar with
      | integer v =>
          refine ⟨_, _, rfl, ?_⟩
          have codes := eight_codes (fun bytes => FieldStore.storeInt (pktI64 bytes)) v.toUInt64.toNat
          rw [pktI64_toLe] at codes
          exact codes
      | float bits =>
          refine ⟨_, _, rfl, ?_⟩
          have codes := eight_codes (fun bytes => FieldStore.storeDouble (pktLe64 bytes)) bits.toNat
          rw [pktLe64_toLe] at codes
          exact codes
      | text bytes => exact ⟨_, _, rfl, counted_codes FieldStore.storeText short⟩
      | boolean b =>
          refine ⟨_, _, rfl, ?_⟩
          have codes := (takeByte_codes (if b then 1 else 0)).map fun b => FieldStore.storeLonglong (if b ≠ 0 then 1 else 0)
          cases b with
          | false => exact codes
          | true => exact codes

theorem cell_codes (maybeNull : Bool) {value : Value} (short : Short value) :
    Codes .truncated (pktStoreValue maybeNull) (packedValue value) (stored maybeNull value) := by
  obtain ⟨tag, payload, packed, codes⟩ := payload_codes maybeNull short
  rw [packed]
  exact (takeByte_codes tag).bind codes

end Cells

section Header

/-- The header without the row count. -/
def headerBytes (names : List (List UInt8)) : List UInt8 :=
  Bytes.toLe 4 (names.length % 2 ^ 32) ++ names.flatMap fun name => Bytes.toLe 2 (name.length % 2 ^ 16) ++ name

theorem writeHeader_eq (names : List (List UInt8)) :
    writeHeader names [] = (headerBytes names ++ Bytes.toLe 4 0, (headerBytes names).length) := by
  have each (buf : List UInt8) :
      names.foldl (fun buf name => buf ++ Bytes.toLe 2 (name.length % 2 ^ 16) ++ name) buf =
        buf ++ names.flatMap fun name => Bytes.toLe 2 (name.length % 2 ^ 16) ++ name := by
    simp only [List.append_assoc]
    exact List.foldl_append_eq_append
  simp only [writeHeader, List.nil_append, each, headerBytes]

theorem skipNames_codes {names : List (List UInt8)} (short : ∀ name ∈ names, name.length < 2 ^ 16) :
    Codes .truncated (skipNames names.length) (names.flatMap fun name => Bytes.toLe 2 (name.length % 2 ^ 16) ++ name)
      () := by
  induction names with
  | nil => exact .pure _ _
  | cons name names ih =>
      obtain ⟨first, rest⟩ := List.forall_mem_cons.mp short
      have count := take_codes (Bytes.toLe 2 (name.length % 2 ^ 16))
      rw [Bytes.length_toLe] at count
      have length : (pktLe16 (Bytes.toLe 2 (name.length % 2 ^ 16))).toNat = name.length := by
        rw [pktLe16_toLe, UInt16.toNat_ofNat']
        omega
      rw [List.flatMap_cons, List.append_assoc]
      refine count.bind ?_
      dsimp only
      rw [length]
      exact (skip_codes name).bind (ih rest)

theorem header_codes {names : List (List UInt8)} (short : ∀ name ∈ names, name.length < 2 ^ 16)
    (few : names.length < 2 ^ 32) :
    Codes .truncated pktParseHeader (headerBytes names) (UInt32.ofNat names.length) := by
  have count := take_codes (Bytes.toLe 4 (names.length % 2 ^ 32))
  rw [Bytes.length_toLe] at count
  have cols : pktLe32 (Bytes.toLe 4 (names.length % 2 ^ 32)) = UInt32.ofNat names.length := by
    rw [pktLe32_toLe, Nat.mod_eq_of_lt few]
  have length : (UInt32.ofNat names.length).toNat = names.length := by
    rw [UInt32.toNat_ofNat']
    omega
  refine count.bind ?_
  dsimp only
  rw [cols, length]
  exact (skipNames_codes short).map fun _ => UInt32.ofNat names.length

end Header

section Rows

/-- The cells of the rows, row by row. -/
def cellsOf (cols : Nat) (rows : List Row) : List Value :=
  rows.flatMap fun row => (List.range cols).map row.value

theorem writeEachRow_eq {cols maxRows : Nat} {rows : List Row} {rowCount : UInt32} (buf : List UInt8)
    (few : rowCount.toNat + rows.length < 2 ^ 32) (all : rowCount.toNat + rows.length ≤ maxRows) :
    writeEachRow cols maxRows rows rowCount buf =
      (UInt32.ofNat (rowCount.toNat + rows.length), buf ++ (cellsOf cols rows).flatMap packedValue) := by
  induction rows generalizing rowCount buf with
  | nil => simp [writeEachRow, cellsOf]
  | cons row rows ih =>
      rw [List.length_cons] at few all
      have next : (rowCount + 1).toNat = rowCount.toNat + 1 := by
        rw [UInt32.toNat_add]
        exact Nat.mod_eq_of_lt (by simp; omega)
      have cells : (List.range cols).foldl (fun buf i => writeValue (row.value i) buf) buf =
          buf ++ ((List.range cols).map row.value).flatMap packedValue := by
        rw [List.flatMap_map]
        exact List.foldl_append_eq_append
      rw [writeEachRow, if_pos (by omega), cells, ih _ (by omega) (by omega), next]
      simp only [cellsOf, List.flatMap_cons, List.flatMap_append, List.append_assoc, List.length_cons, Prod.mk.injEq,
        and_true]
      congr 1
      omega

/-- The buffer that is packed. -/
def packed (names : List (List UInt8)) (rows : List Row) : List UInt8 :=
  headerBytes names ++ Bytes.toLe 4 rows.length ++ (cellsOf names.length rows).flatMap packedValue

theorem packAll_eq {names : List (List UInt8)} {rows : List Row} (few : rows.length < 2 ^ 32) :
    packAll names ⟨rows, none⟩ = .ok (UInt32.ofNat rows.length, packed names rows) := by
  have written := @writeEachRow_eq names.length usizeMax rows 0 (headerBytes names ++ Bytes.toLe 4 0)
    (by simpa using few) (by simp [usizeMax]; omega)
  have count : (UInt32.ofNat rows.length).toNat = rows.length := by
    rw [UInt32.toNat_ofNat']
    omega
  have patched (cells : List UInt8) : patch (headerBytes names ++ Bytes.toLe 4 0 ++ cells) (headerBytes names).length
      (Bytes.toLe 4 rows.length) = headerBytes names ++ Bytes.toLe 4 rows.length ++ cells := by
    have zero := Bytes.length_toLe 4 0
    have kept : (headerBytes names ++ Bytes.toLe 4 0 ++ cells).take (headerBytes names).length = headerBytes names := by
      rw [List.append_assoc, List.take_left]
    rw [patch, Bytes.length_toLe, kept, List.drop_left' (by rw [List.length_append, zero])]
  simp only [UInt32.toNat_zero, Nat.zero_add] at written
  simp only [packAll, writeHeader_eq, writeRows, written, count, patched, packed]

end Rows

section Decoding

variable (maybeNull : Nat → Bool) (names : List (List UInt8)) (rows : List Row)

/-- The cells with whether their fields take NULL. -/
def fieldCells (cols : Nat) : List (Bool × Value) :=
  rows.flatMap fun row => (List.range cols).map fun column => (maybeNull column, row.value column)

/-- What the cells store, row by row. -/
def storesOf : List FieldStore := (fieldCells maybeNull rows names.length).map fun cell => stored cell.1 cell.2

/-- Where a cell starts in the buffer. -/
def cellStart (k : Nat) : Nat :=
  (headerBytes names).length + 4 + (((cellsOf names.length rows).take k).flatMap packedValue).length

/-- How reading the first `n` bytes of the buffer ends: in the header, in the
row count, or in the cell the bytes end in, with the cells before it. -/
inductive EndsAt (n : Nat) : Decoded → Prop where
  | header (within : n < (headerBytes names).length) : EndsAt n (.noHeader .truncated)
  | count (past : (headerBytes names).length ≤ n) (within : n < (headerBytes names).length + 4) :
      EndsAt n (.noCount (UInt32.ofNat names.length) .truncated)
  | cell {k : Nat} (isCell : k < (cellsOf names.length rows).length) (past : cellStart names rows k ≤ n)
      (within : n < cellStart names rows (k + 1)) :
      EndsAt n (.rows (UInt32.ofNat names.length) (UInt32.ofNat rows.length)
        ((storesOf maybeNull names rows).take k) (.error .truncated))

variable {maybeNull names rows}

theorem fieldCells_values (cols : Nat) : (fieldCells maybeNull rows cols).map Prod.snd = cellsOf cols rows := by
  simp only [fieldCells, cellsOf, List.map_flatMap, List.map_map]
  rfl

theorem fieldCells_reads (cols : Nat) :
    (List.replicate rows.length ((List.range cols).map fun column => pktStoreValue (maybeNull column))).flatten =
      (fieldCells maybeNull rows cols).map fun cell => pktStoreValue cell.1 := by
  induction rows with
  | nil => rfl
  | cons row rows ih =>
      rw [List.length_cons, List.replicate_succ, List.flatten_cons, ih]
      simp only [fieldCells, List.flatMap_cons, List.map_append, List.map_map]
      rfl

theorem fieldCells_short {cols : Nat} (short : ∀ row ∈ rows, ∀ value ∈ row, Short value) :
    ∀ cell ∈ fieldCells maybeNull rows cols, Short cell.2 := by
  intro cell member
  obtain ⟨row, rowIn, mapped⟩ := List.mem_flatMap.mp member
  obtain ⟨column, -, rfl⟩ := List.mem_map.mp mapped
  cases found : row[column]? with
  | none => simp [Row.value, found, Short]
  | some value =>
      have here := short row rowIn value (List.mem_of_getElem? found)
      simpa [Row.value, found] using here

theorem readPacket_rows {buf bytes : List UInt8} {cols : UInt32} {past pos r c : Nat} {stores : List FieldStore}
    {last : Except Fault Nat} (header : pktParseHeader buf 0 = .ok (cols, past)) (count : take 4 buf past = .ok (bytes, pos))
    (isRows : (pktLe32 bytes).toNat = r) (isCols : cols.toNat = c)
    (cells : readEach buf (List.replicate r
      ((List.range c).map fun column => pktStoreValue (maybeNull column))).flatten pos = (stores, last)) :
    readPacket maybeNull buf = .rows cols (pktLe32 bytes) stores last := by
  subst isRows isCols
  simp only [readPacket, header, count, cells]

theorem count_codes (few : rows.length < 2 ^ 32) :
    Codes .truncated (take 4) (Bytes.toLe 4 rows.length) (Bytes.toLe 4 rows.length) ∧
      pktLe32 (Bytes.toLe 4 rows.length) = UInt32.ofNat rows.length ∧
      (pktLe32 (Bytes.toLe 4 rows.length)).toNat = rows.length := by
  have codes := take_codes (Bytes.toLe 4 rows.length)
  rw [Bytes.length_toLe] at codes
  refine ⟨codes, pktLe32_toLe _, ?_⟩
  rw [pktLe32_toLe, UInt32.toNat_ofNat']
  omega

theorem cells_code : (fieldCells maybeNull rows names.length).flatMap (fun cell => packedValue cell.2) =
    (cellsOf names.length rows).flatMap packedValue := by
  rw [← @fieldCells_values maybeNull rows, List.flatMap_map]

end Decoding

/-- What is packed is read back, and all of it; of a buffer that ends early the
cells before its end are, and the read fails at what it ends in. No byte past
the end is read, which would be another failure. -/
theorem packet_round_trip {names : List (List UInt8)} {rows : List Row} (shortNames : ∀ name ∈ names, name.length < 2 ^ 16)
    (fewColumns : names.length < 2 ^ 32) (shortTexts : ∀ row ∈ rows, ∀ value ∈ row, Short value)
    (fewRows : rows.length < 2 ^ 32) (maybeNull : Nat → Bool) :
    ∃ buf, packAll names ⟨rows, none⟩ = .ok (UInt32.ofNat rows.length, buf) ∧
      readPacket maybeNull buf = .rows (UInt32.ofNat names.length) (UInt32.ofNat rows.length)
        (storesOf maybeNull names rows) (.ok buf.length) ∧
      ∀ n < buf.length, EndsAt maybeNull names rows n (readPacket maybeNull (buf.take n)) := by
  have header := header_codes shortNames fewColumns
  obtain ⟨count, counted, countNat⟩ := @count_codes rows fewRows
  have colsNat : (UInt32.ofNat names.length).toNat = names.length := by
    rw [UInt32.toNat_ofNat']
    omega
  have cells : ∀ cell ∈ fieldCells maybeNull rows names.length,
      Codes .truncated (pktStoreValue cell.1) (packedValue cell.2) (stored cell.1 cell.2) :=
    fun cell member => cell_codes cell.1 (fieldCells_short shortTexts cell member)
  have reads := @fieldCells_reads maybeNull rows names.length
  have code := @cells_code maybeNull names rows
  refine ⟨packed names rows, packAll_eq fewRows, ?_, ?_⟩
  · have headerRead := header.whole [] (Bytes.toLe 4 rows.length ++ (cellsOf names.length rows).flatMap packedValue)
    have countRead := count.whole (headerBytes names) ((cellsOf names.length rows).flatMap packedValue)
    have cellsRead := readEach_whole cells (headerBytes names ++ Bytes.toLe 4 rows.length) []
    simp only [code, List.nil_append, List.append_nil, List.length_nil, Nat.zero_add, ← List.append_assoc]
      at headerRead countRead cellsRead
    rw [← reads, List.length_append] at cellsRead
    rw [packed, readPacket_rows headerRead countRead countNat colsNat cellsRead, counted]
    simp only [List.length_append, storesOf]
  · intro n within
    have begins : (packed names rows).take n <+: packed names rows := List.take_prefix _ _
    have length : ((packed names rows).take n).length = n := List.length_take_of_le (Nat.le_of_lt within)
    have proper : (packed names rows).take n ≠ packed names rows := by
      intro same
      rw [same] at length
      omega
    generalize (packed names rows).take n = part at begins length proper ⊢
    subst length
    rw [packed, List.append_assoc] at begins proper
    rcases cut_append begins with ⟨inHeader, short⟩ | ⟨rest, rfl, inRest⟩
    · -- The header itself is cut.
      have failed := header.cut [] part inHeader short
      rw [List.nil_append, List.length_nil] at failed
      have shorter := inHeader.length_le
      have differ : part.length ≠ (headerBytes names).length := fun same => short (inHeader.eq_of_length same)
      simp only [readPacket, failed]
      exact .header (by omega)
    · have headerRead := header.whole [] rest
      rw [List.nil_append, List.length_nil, Nat.zero_add] at headerRead
      rcases cut_append inRest with ⟨inCount, short⟩ | ⟨tail, rfl, inCells⟩
      · -- The row count is cut.
        have failed := count.cut (headerBytes names) rest inCount short
        have shorter := inCount.length_le
        have differ : rest.length ≠ (Bytes.toLe 4 rows.length).length := fun same => short (inCount.eq_of_length same)
        rw [Bytes.length_toLe] at shorter differ
        simp only [readPacket, headerRead, failed]
        exact .count (by rw [List.length_append]; omega) (by rw [List.length_append]; omega)
      · -- A cell is cut.
        have countRead := count.whole (headerBytes names) tail
        rw [List.append_assoc] at countRead
        have notAll : tail ≠ (fieldCells maybeNull rows names.length).flatMap fun cell => packedValue cell.2 := by
          rw [code]
          intro same
          exact proper (by rw [same])
        rw [← code] at inCells
        obtain ⟨k, isCell, past, short, cellsRead⟩ :=
          readEach_cut cells (headerBytes names ++ Bytes.toLe 4 rows.length) inCells notAll
        rw [← reads, List.length_append, List.append_assoc] at cellsRead
        have start (k : Nat) : cellStart names rows k = (headerBytes names).length + 4 +
            (((fieldCells maybeNull rows names.length).take k).flatMap fun cell => packedValue cell.2).length := by
          rw [cellStart, ← @fieldCells_values maybeNull rows, ← List.map_take, List.flatMap_map]
        have isValue : k < (cellsOf names.length rows).length := by
          rwa [← @fieldCells_values maybeNull rows, List.length_map]
        rw [readPacket_rows headerRead countRead countNat colsNat cellsRead, counted, List.map_take]
        refine .cell isValue ?_ ?_
        · rw [start, List.length_append, List.length_append, Bytes.length_toLe]
          omega
        · rw [start, List.length_append, List.length_append, Bytes.length_toLe]
          omega

/-- A column `a` of the rows -1 and NULL. -/
def sampleNames : List (List UInt8) := [[0x61]]

def sampleRows : List Row := [[some (.integer (-1))], [none]]

theorem packet_round_trip_sample :
    ∃ buf, packAll sampleNames ⟨sampleRows, none⟩ = .ok (2, buf) ∧
      readPacket (fun _ => true) buf = .rows 1 2 [.storeInt (-1), .setNull] (.ok buf.length) ∧
      EndsAt (fun _ => true) sampleNames sampleRows 12 (readPacket (fun _ => true) (buf.take 12)) := by
  have shortNames : ∀ name ∈ sampleNames, name.length < 2 ^ 16 := by decide
  have shortTexts : ∀ row ∈ sampleRows, ∀ value ∈ row, Short value := by
    intro row member value inRow
    simp only [sampleRows, List.mem_cons, List.not_mem_nil, or_false] at member
    rcases member with rfl | rfl <;> simp only [List.mem_singleton] at inRow <;> subst inRow <;> trivial
  obtain ⟨buf, packed, read, ends⟩ :=
    packet_round_trip shortNames (by decide) shortTexts (by decide) fun _ => true
  have long : 12 < buf.length := by
    cases packed
    decide
  exact ⟨buf, packed, read, ends 12 long⟩

end StoolapMariadb.Packet
