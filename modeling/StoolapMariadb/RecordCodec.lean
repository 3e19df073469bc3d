import StoolapMariadb.RecordWrite
import StoolapMariadb.Lib.ExceptList

namespace StoolapMariadb.Record

/-! What is written into a record reads back, and what is read writes back. -/

variable {f g : StoolapField} {record : RecordBuffer} {value : Scalar} {bytes : List UInt8} {row : Row}
  {sink : Sink} {fields : List StoolapField}

theorem isNull_iff : isNull f record = true ↔
    f.nullMask ≠ 0 ∧ record f.nullOffset.toNat &&& f.nullMask.toUInt8 ≠ 0 := by
  rw [isNull, Bool.and_eq_true, decide_eq_true_eq, decide_eq_true_eq]

theorem isNull_eq_false : isNull f record = false ↔
    (f.nullMask ≠ 0 → record f.nullOffset.toNat &&& f.nullMask.toUInt8 = 0) := by
  rw [← Bool.not_eq_true, isNull_iff, not_and, not_not]

/-- The bit pattern of an integer. -/
theorem toUInt64_toNat_cond (v : Int64) :
    (v.toUInt64.toNat : Int) = if 0 ≤ v.toInt then v.toInt else v.toInt + 2 ^ 64 := by
  have spelled := v.toBitVec.toInt_eq_toNat_cond
  have same : v.toUInt64.toNat = v.toBitVec.toNat := rfl
  have bound := v.toBitVec.isLt
  have value : v.toBitVec.toInt = v.toInt := rfl
  rw [same, ← value]
  split at spelled <;> split <;> omega

theorem toInt64_ofNat (v : Int64) : (UInt64.ofNat v.toUInt64.toNat).toInt64 = v := by
  rw [UInt64.ofNat_toNat]
  rfl

/-- The bytes an integer field is read from, extended to eight. -/
def extended (f : StoolapField) (bytes : List UInt8) : List UInt8 :=
  bytes ++ List.replicate (8 - f.length.toNat)
    (if !f.isUnsigned && f.length.toNat < 8 && (bytes.getLast?.getD 0) &&& 0x80 ≠ 0 then 0xff else 0)

theorem readInt_eq (f : StoolapField) (record : RecordBuffer) :
    readInt f record =
      (UInt64.ofNat (Bytes.fromLe (extended f (Bytes.read record f.offset.toNat f.length.toNat)))).toInt64 := rfl

/-- Sign extension gives back the number the low bytes were cut from: an
unsigned field's when it has no other bits, a signed one's in its range. -/
theorem fromLe_extended {v : Int64} (narrow : f.length.toNat ∈ [1, 2, 3, 4, 8])
    (fits : intFits v f.length.toNat f.isUnsigned = true) :
    Bytes.fromLe (extended f (Bytes.toLe f.length.toNat v.toUInt64.toNat)) = v.toUInt64.toNat := by
  have pattern := toUInt64_toNat_cond v
  have bound := v.toUInt64.toNat_lt
  generalize v.toUInt64.toNat = u at pattern bound
  rw [extended, Bytes.fromLe_append, Bytes.fromLe_toLe, Bytes.length_toLe]
  by_cases whole : f.length.toNat = 8
  · rw [whole, Nat.sub_self, List.replicate_zero, Bytes.fromLe, Nat.mul_zero, Nat.add_zero]
    exact Nat.mod_eq_of_lt bound
  · obtain ⟨count, length, small⟩ : ∃ count, f.length.toNat = count + 1 ∧ count ∈ [0, 1, 2, 3] := by
      refine ⟨f.length.toNat - 1, ?_, ?_⟩ <;> simp only [List.mem_cons, List.not_mem_nil, or_false] at * <;> omega
    have sign : (((Bytes.toLe f.length.toNat u).getLast?.getD 0) &&& 0x80 ≠ 0) ↔
        128 ≤ u / 256 ^ count % 256 := by
      rw [length, Bytes.getLast?_toLe, Option.getD_some, Bytes.and_signBit]
      exact iff_of_eq (congrArg (128 ≤ ·) UInt8.toNat_ofNat')
    simp only [intFits, length] at fits
    cases unsigned : f.isUnsigned with
    | true =>
        rw [unsigned] at fits
        simp only [Bool.not_true, Bool.false_and, Bool.false_eq_true, if_false,
          Bytes.fromLe_replicate_zero, Nat.mul_zero, Nat.add_zero]
        rw [length]
        simp only [List.mem_cons, List.not_mem_nil, or_false] at small
        rcases small with rfl | rfl | rfl | rfl <;> simp at fits ⊢ <;> split at pattern <;> omega
    | false =>
        rw [unsigned] at fits
        have below : f.length.toNat < 8 := by
          simp only [List.mem_cons, List.not_mem_nil, or_false] at small
          omega
        simp only [Bool.not_false, below, decide_true, Bool.true_and, decide_eq_true_eq, sign]
        rw [length]
        simp only [List.mem_cons, List.not_mem_nil, or_false] at small
        by_cases negative : 128 ≤ u / 256 ^ count % 256
        · rw [if_pos negative, Bytes.fromLe_replicate_ones]
          rcases small with rfl | rfl | rfl | rfl <;> simp at fits negative ⊢ <;> split at pattern <;> omega
        · rw [if_neg negative, Bytes.fromLe_replicate_zero]
          rcases small with rfl | rfl | rfl | rfl <;> simp at fits negative ⊢ <;> split at pattern <;> omega

/-- The field holds the value: its NULL bit, and the bytes it takes for it. -/
def Holds (f : StoolapField) (record : RecordBuffer) : Value → Prop
  | none => isNull f record = true
  | some value => isNull f record = false ∧
      ∃ bytes, directBytes f value = some bytes ∧ Bytes.read record f.offset.toNat bytes.length = bytes

theorem intBytes_eq {v : Int64} (narrow : f.length.toNat ∈ [1, 2, 3, 4, 8])
    (taken : intBytes f v = some bytes) :
    intFits v f.length.toNat f.isUnsigned = true ∧ bytes = Bytes.toLe f.length.toNat v.toUInt64.toNat := by
  have short : f.length.toNat ≤ 8 := by
    simp only [List.mem_cons, List.not_mem_nil, or_false] at narrow
    omega
  rw [intBytes, Bytes.take_toLe short] at taken
  split at taken
  · rename_i fits
    exact ⟨fits, (Option.some.inj taken).symm⟩
  · cases taken

theorem textBytes_eq {text : List UInt8} (narrow : f.length.toNat ∈ [1, 2])
    (room : f.maxChars.toNat < 256 ^ f.length.toNat) (short : text.length ≤ f.maxChars.toNat) :
    (Bytes.toLe 2 (text.length % 65536)).take f.length.toNat = Bytes.toLe f.length.toNat text.length := by
  simp only [List.mem_cons, List.not_mem_nil, or_false] at narrow
  have two : f.length.toNat ≤ 2 := by omega
  rw [Bytes.take_toLe two, Nat.mod_eq_of_lt]
  rcases narrow with one | two <;> rw [‹f.length.toNat = _›] at room <;> norm_num at room <;> omega

/-- What a field takes for a value stays within the field. -/
theorem length_directBytes_le (shaped : f.Shaped) (taken : directBytes f value = some bytes) :
    bytes.length ≤ f.packLength.toNat := by
  simp only [StoolapField.Shaped] at shaped
  cases kind : f.kind with
  | int =>
      rw [kind] at shaped
      have short : ∀ v, intBytes f v = some bytes → bytes.length ≤ f.packLength.toNat := by
        intro v taken
        rw [(intBytes_eq shaped.1 taken).2, Bytes.length_toLe]
        exact shaped.2
      cases value <;> simp only [directBytes, kind, reduceCtorEq] at taken
      · exact short _ taken
      · exact short _ taken
  | double =>
      rw [kind] at shaped
      cases value <;> simp only [directBytes, kind, reduceCtorEq, Option.some.injEq] at taken
      · rw [← taken, Bytes.length_toLe]
        exact shaped
      · split at taken
        · cases taken
          rw [Bytes.length_toLe]
          exact shaped
        · cases taken
  | varchar =>
      rw [kind] at shaped
      cases value <;> simp only [directBytes, kind, reduceCtorEq] at taken
      split at taken
      · cases taken
      · rename_i short
        cases taken
        rw [List.length_append, List.length_take, Bytes.length_toLe]
        omega
  | store => rw [kind] at shaped; exact shaped.elim
  | float => rw [kind] at shaped; exact shaped.elim

/-- The bytes a field takes for a value of its own read back as the value. -/
theorem readDirect_of_bytes [Stoolap] (shaped : f.Shaped) (own : f.Owns value)
    (taken : directBytes f value = some bytes)
    (held : Bytes.read record f.offset.toNat bytes.length = bytes) :
    readDirect f record = some value := by
  simp only [StoolapField.Shaped] at shaped
  cases value with
  | integer v =>
      obtain ⟨kind, upper⟩ := own
      rw [kind] at shaped
      simp only [directBytes, kind] at taken
      obtain ⟨fits, spelled⟩ := intBytes_eq shaped.1 taken
      rw [spelled, Bytes.length_toLe] at held
      have read : readInt f record = v := by
        rw [readInt_eq, held, fromLe_extended shaped.1 fits, toInt64_ofNat]
      simp only [readDirect, kind, read]
      rw [if_pos]
      cases unsigned : f.isUnsigned with
      | false => rfl
      | true =>
          have wide : f.length.toNat < 8 ∨ 0 ≤ v := by
            by_cases whole : f.length = 8
            · exact .inr (upper unsigned whole)
            · have other : f.length.toNat ≠ 8 := fun same => whole (UInt32.toNat_inj.mp same)
              have narrow := shaped.1
              simp only [List.mem_cons, List.not_mem_nil, or_false] at narrow
              exact .inl (by omega)
          rcases wide with narrow | positive
          · simp [narrow]
          · simp [positive]
  | float bits =>
      have kind : f.kind = .double := own
      simp only [directBytes, kind] at taken
      split at taken
      · cases taken
        rw [Bytes.length_toLe] at held
        have eight : bits.toNat % 256 ^ 8 = bits.toNat := Nat.mod_eq_of_lt bits.toNat_lt
        simp only [readDirect, kind, held, Bytes.fromLe_toLe, eight,
          UInt64.ofNat_toNat]
      · cases taken
  | text text =>
      obtain ⟨kind, valid⟩ := own
      rw [kind] at shaped
      simp only [directBytes, kind] at taken
      split at taken
      · cases taken
      · rename_i short
        obtain ⟨narrow, room, _⟩ := shaped
        rw [textBytes_eq narrow room (Nat.le_of_not_lt short)] at taken
        cases taken
        rw [List.length_append, Bytes.length_toLe, Bytes.read_add] at held
        obtain ⟨first, second⟩ := List.append_inj held (by rw [Bytes.length_read, Bytes.length_toLe])
        have count : text.length % 256 ^ f.length.toNat = text.length :=
          Nat.mod_eq_of_lt (Nat.lt_of_le_of_lt (Nat.le_of_not_lt short) room)
        simp only [readDirect, kind, first, Bytes.fromLe_toLe, count, second, valid,
          if_true]
  | boolean v => exact own.elim

/-- And bytes that read as a value the field takes are those it takes. -/
theorem bytes_of_readDirect [Stoolap] (shaped : f.Shaped) (read : readDirect f record = some value)
    (taken : directBytes f value = some bytes) :
    Bytes.read record f.offset.toNat bytes.length = bytes := by
  simp only [StoolapField.Shaped] at shaped
  cases kind : f.kind with
  | int =>
      rw [kind] at shaped
      simp only [readDirect, kind] at read
      split at read
      · cases read
        simp only [directBytes, kind] at taken
        obtain ⟨_, spelled⟩ := intBytes_eq shaped.1 taken
        have bound := Bytes.fromLe_lt
          (extended f (Bytes.read record f.offset.toNat f.length.toNat))
        have width : (extended f (Bytes.read record f.offset.toNat f.length.toNat)).length = 8 := by
          have narrow := shaped.1
          simp only [List.mem_cons, List.not_mem_nil, or_false] at narrow
          rw [extended, List.length_append, Bytes.length_read, List.length_replicate]
          omega
        rw [width] at bound
        have pattern : (readInt f record).toUInt64.toNat =
            Bytes.fromLe (extended f (Bytes.read record f.offset.toNat f.length.toNat)) := by
          rw [readInt_eq]
          exact (UInt64.toNat_ofNat').trans (Nat.mod_eq_of_lt bound)
        have prefixed := Bytes.toLe_fromLe_append (Bytes.read record f.offset.toNat f.length.toNat)
          (List.replicate (8 - f.length.toNat)
            (if !f.isUnsigned && f.length.toNat < 8 &&
              ((Bytes.read record f.offset.toNat f.length.toNat).getLast?.getD 0) &&& 0x80 ≠ 0
              then 0xff else 0))
        rw [Bytes.length_read] at prefixed
        rw [pattern, extended, prefixed] at spelled
        rw [spelled, Bytes.length_read]
      · cases read
  | double =>
      simp only [readDirect, kind, Option.some.injEq] at read
      subst read
      simp only [directBytes, kind] at taken
      split at taken
      · cases taken
        have bound := Bytes.fromLe_lt (Bytes.read record f.offset.toNat 8)
        rw [Bytes.length_read] at bound
        have pattern : (UInt64.ofNat (Bytes.fromLe (Bytes.read record f.offset.toNat 8))).toNat =
            Bytes.fromLe (Bytes.read record f.offset.toNat 8) :=
          (UInt64.toNat_ofNat').trans (Nat.mod_eq_of_lt bound)
        have whole := Bytes.toLe_fromLe (Bytes.read record f.offset.toNat 8)
        rw [Bytes.length_read] at whole
        rw [pattern, whole, Bytes.length_read]
      · cases taken
  | varchar =>
      rw [kind] at shaped
      obtain ⟨narrow, room, _⟩ := shaped
      simp only [readDirect, kind] at read
      split at read
      · cases read
        simp only [directBytes, kind] at taken
        split at taken
        · cases taken
        · rename_i short
          rw [textBytes_eq narrow room (Nat.le_of_not_lt short)] at taken
          cases taken
          simp only [Bytes.length_read, List.length_append, Bytes.length_toLe]
          have counted := Bytes.toLe_fromLe (Bytes.read record f.offset.toNat f.length.toNat)
          rw [Bytes.length_read] at counted
          rw [Bytes.read_add, counted]
      · cases read
  | store => rw [kind] at shaped; exact shaped.elim
  | float => rw [kind] at shaped; exact shaped.elim

/-- The record after a field took a value. -/
def written (f : StoolapField) (record : RecordBuffer) : Value → RecordBuffer
  | none => setNull f record
  | some value =>
      Bytes.write (clearNull f record) f.offset.toNat ((directBytes f value).getD [])

theorem writeField_eq (takes : f.Takes (row.value f.columnIndex)) :
    writeField f row sink record = (.ok (), written f record (row.value f.columnIndex)) := by
  rw [writeField]
  cases held : row.value f.columnIndex with
  | none =>
      rw [held] at takes
      simp only [ne_eq, and_true, written]
      exact if_pos takes
  | some value =>
      rw [held] at takes
      obtain ⟨bytes, taken⟩ := Option.isSome_iff_exists.mp takes
      simp only [reduceCtorEq, and_false, if_false, Option.bind_some, writeDirect, taken, Option.map_some,
        written, Option.getD_some]

/-- The frame of one field: outside its bytes nothing changes but its NULL
bit. -/
theorem written_frame (shaped : f.Shaped) (record : RecordBuffer) (v : Value) (keep : UInt8)
    {address : Nat}
    (outside : ¬ f.Covers address)
    (apart : f.nullMask ≠ 0 → f.nullOffset.toNat = address → keep &&& f.nullMask.toUInt8 = 0) :
    written f record v address &&& keep = record address &&& keep := by
  have cleared : clearNull f record address &&& keep = record address &&& keep := by
    rw [clearNull]
    split
    · rename_i nullable
      by_cases here : f.nullOffset.toNat = address
      · rw [here, Bytes.write_singleton]
        exact Bytes.and_not_and_of_disjoint (apart nullable here) _
      · rw [Bytes.write_apart (by rw [List.length_singleton]; omega)]
    · rfl
  cases v with
  | none =>
      by_cases nullable : f.nullMask = 0
      · have zero : f.nullMask.toUInt8 = 0 := by rw [nullable]; rfl
        rw [written, setNull, zero, UInt8.or_zero, Bytes.write_read rfl]
      · by_cases here : f.nullOffset.toNat = address
        · rw [written, setNull, here, Bytes.write_singleton]
          exact Bytes.or_and_of_disjoint (apart nullable here) _
        · rw [written, setNull, Bytes.write_apart (by rw [List.length_singleton]; omega)]
  | some value =>
      cases taken : directBytes f value with
      | none => rw [written, taken, Option.getD_none, Bytes.write_read rfl, cleared]
      | some bytes =>
          have within := length_directBytes_le shaped taken
          rw [StoolapField.Covers] at outside
          rw [written, taken, Option.getD_some, Bytes.write_apart (by omega), cleared]

theorem written_apart (shaped : f.Shaped) (record : RecordBuffer) (v : Value) {address : Nat} (outside : ¬ f.Covers address)
    (elsewhere : f.nullMask ≠ 0 → f.nullOffset.toNat ≠ address) :
    written f record v address = record address := by
  have kept := written_frame shaped record v (-1) outside
    (fun nullable here => absurd here (elsewhere nullable))
  rwa [UInt8.and_neg_one, UInt8.and_neg_one] at kept

theorem holds_written (wellFormed : f.WellFormed) {v : Value} (takes : f.Takes v) :
    Holds f (written f record v) v := by
  cases v with
  | none =>
      obtain ⟨bit, small, mask⟩ := wellFormed.nullBit takes
      have set : f.nullMask.toUInt8 ≠ 0 := by
        intro zero
        have value : f.nullMask.toUInt8.toNat = 2 ^ bit := by
          have fits : 2 ^ bit < 256 := Nat.pow_lt_pow_right (by decide) small
          rw [UInt32.toNat_toUInt8, mask, Nat.mod_eq_of_lt fits]
        rw [zero] at value
        exact absurd value (Nat.ne_of_lt (Nat.pow_pos (by decide)))
      refine isNull_iff.mpr ⟨takes, ?_⟩
      rw [written, setNull, Bytes.write_singleton, Bytes.or_and_self]
      exact set
  | some value =>
      obtain ⟨bytes, taken⟩ := Option.isSome_iff_exists.mp takes
      have within := length_directBytes_le wellFormed.shaped taken
      refine ⟨?_, bytes, taken, ?_⟩
      · rw [isNull_eq_false]
        intro nullable
        have outside := wellFormed.nullOutside nullable
        rw [StoolapField.Covers] at outside
        rw [written, taken, Option.getD_some, Bytes.write_apart (by omega), clearNull, if_pos nullable,
          Bytes.write_singleton, Bytes.and_not_and_self]
      · rw [written, taken, Option.getD_some, Bytes.read_write]

/-- A field apart from `f` leaves what `f` holds. -/
theorem holds_of_apart (shaped : f.Shaped) (other : g.Shaped) (apart : f.Apart g) {v w : Value}
    (held : Holds f record v) : Holds f (written g record w) v := by
  have null : isNull f (written g record w) = isNull f record := by
    rw [Bool.eq_iff_iff, isNull_iff, isNull_iff, and_congr_right_iff]
    intro nullable
    have kept := written_frame other record w f.nullMask.toUInt8 (apart.nullLeft nullable)
      (fun nullable' here => apart.nullBits nullable nullable' (UInt32.toNat_inj.mp here.symm))
    rw [kept]
  cases v with
  | none => exact null.trans held
  | some value =>
      obtain ⟨clear, bytes, taken, spelled⟩ := held
      refine ⟨null.trans clear, bytes, taken, ?_⟩
      have within := length_directBytes_le shaped taken
      have same : Bytes.read (written g record w) f.offset.toNat bytes.length =
          Bytes.read record f.offset.toNat bytes.length := by
        apply Bytes.read_congr
        intro address from_ below
        have covered : f.Covers address := ⟨from_, by omega⟩
        exact written_apart other record w (apart.bytes address covered)
          fun nullable here => apart.nullRight nullable (here ▸ covered)
      rw [same, spelled]

/-- What a field holds, writing it again leaves as it is. -/
theorem written_of_holds (wellFormed : f.WellFormed) {v : Value} (takes : f.Takes v)
    (held : Holds f record v) : written f record v = record := by
  cases v with
  | none =>
      obtain ⟨bit, small, mask⟩ := wellFormed.nullBit takes
      have fits : 2 ^ bit < 256 := Nat.pow_lt_pow_right (by decide) small
      have single : f.nullMask.toUInt8.toNat = 2 ^ bit := by
        rw [UInt32.toNat_toUInt8, mask, Nat.mod_eq_of_lt fits]
      rw [written, setNull, Bytes.or_of_set single (isNull_iff.mp held).2, Bytes.write_read rfl]
  | some value =>
      obtain ⟨clear, bytes, taken, spelled⟩ := held
      have cleared : clearNull f record = record := by
        rw [clearNull]
        split
        · rename_i nullable
          rw [Bytes.and_not_of_clear (isNull_eq_false.mp clear nullable), Bytes.write_read rfl]
        · rfl
      rw [written, taken, Option.getD_some, cleared, Bytes.write_read spelled]

/-- The record after every field took its value. -/
def writtenAll (fields : List StoolapField) (row : Row) (record : RecordBuffer) : RecordBuffer :=
  match fields with
  | [] => record
  | f :: fields => writtenAll fields row (written f record (row.value f.columnIndex))

theorem writeRecord_eq (takes : ∀ f ∈ fields, f.Takes (row.value f.columnIndex)) :
    writeRecord fields row sink record = (.ok (), writtenAll fields row record) := by
  induction fields generalizing record with
  | nil => rfl
  | cons f fields ih =>
      rw [writeRecord, writeField_eq (takes f List.mem_cons_self)]
      exact ih fun other member => takes other (List.mem_cons_of_mem _ member)

/-- The run lemma of the frame. -/
theorem writtenAll_frame (shaped : ∀ f ∈ fields, f.Shaped) {address : Nat} {keep : UInt8}
    (outside : ∀ f ∈ fields, ¬ f.Covers address)
    (apart : ∀ f ∈ fields, f.nullMask ≠ 0 → f.nullOffset.toNat = address →
      keep &&& f.nullMask.toUInt8 = 0) :
    writtenAll fields row record address &&& keep = record address &&& keep := by
  induction fields generalizing record with
  | nil => rfl
  | cons f fields ih =>
      rw [List.forall_mem_cons] at shaped outside apart
      rw [writtenAll, ih shaped.2 outside.2 apart.2, written_frame shaped.1 _ _ _ outside.1 apart.1]

theorem holds_writtenAll_of_apart (shaped : f.Shaped) (others : ∀ g ∈ fields, g.Shaped ∧ f.Apart g)
    {v : Value} (held : Holds f record v) : Holds f (writtenAll fields row record) v := by
  induction fields generalizing record with
  | nil => exact held
  | cons g fields ih =>
      rw [List.forall_mem_cons] at others
      exact ih others.2 (holds_of_apart shaped others.1.1 others.1.2 held)

/-- The run lemma of the values: each field holds its own after all are
written. -/
theorem holds_writtenAll (layout : Layout fields)
    (takes : ∀ f ∈ fields, f.Takes (row.value f.columnIndex)) :
    ∀ f ∈ fields, Holds f (writtenAll fields row record) (row.value f.columnIndex) := by
  induction fields generalizing record with
  | nil => exact fun f member => absurd member List.not_mem_nil
  | cons f fields ih =>
      obtain ⟨wellFormed, pairwise⟩ := layout
      rw [List.forall_mem_cons] at wellFormed takes
      rw [List.pairwise_cons] at pairwise
      rw [List.forall_mem_cons]
      refine ⟨?_, ih ⟨wellFormed.2, pairwise.2⟩ takes.2⟩
      exact holds_writtenAll_of_apart wellFormed.1.shaped
        (fun g member => ⟨(wellFormed.2 g member).shaped, pairwise.1 g member⟩)
        (holds_written wellFormed.1 takes.1)

theorem writtenAll_of_holds (wellFormed : ∀ f ∈ fields, f.WellFormed)
    (takes : ∀ f ∈ fields, f.Takes (row.value f.columnIndex))
    (held : ∀ f ∈ fields, Holds f record (row.value f.columnIndex)) :
    writtenAll fields row record = record := by
  induction fields with
  | nil => rfl
  | cons f fields ih =>
      rw [List.forall_mem_cons] at wellFormed takes held
      rw [writtenAll, written_of_holds wellFormed.1 takes.1 held.1, ih wellFormed.2 takes.2 held.2]

theorem readValue_of_holds [Stoolap] (shaped : f.Shaped) {v : Value}
    (own : ∀ value, v = some value → f.Owns value) (held : Holds f record v)
    (encode : Option (Int32 → RecordBuffer → Except EncodeError Value)) :
    readValue f { record, encode } = .ok v := by
  cases v with
  | none => exact if_pos held
  | some value =>
      obtain ⟨clear, bytes, taken, spelled⟩ := held
      have direct := readDirect_of_bytes shaped (own value rfl) taken spelled
      simp only [readValue, clear, Bool.false_eq_true, if_false, direct]

/-- No encode callback reads the field's value. -/
def ReadsItself [Stoolap] (f : StoolapField) (record : RecordBuffer) : Prop :=
  isNull f record = true ∨ (readDirect f record).isSome = true

theorem holds_of_readValue [Stoolap] (shaped : f.Shaped) {v : Value} (takes : f.Takes v)
    (itself : ReadsItself f record)
    {encode : Option (Int32 → RecordBuffer → Except EncodeError Value)}
    (read : readValue f { record, encode } = .ok v) : Holds f record v := by
  rw [readValue] at read
  cases null : isNull f record with
  | true =>
      rw [null, if_pos rfl] at read
      cases read
      exact null
  | false =>
      rw [ReadsItself, null, Bool.false_eq_true, false_or] at itself
      obtain ⟨value, direct⟩ := Option.isSome_iff_exists.mp itself
      simp only [null, Bool.false_eq_true, if_false, direct] at read
      cases read
      obtain ⟨bytes, taken⟩ := Option.isSome_iff_exists.mp takes
      exact ⟨null, bytes, taken, bytes_of_readDirect shaped direct taken⟩

/-- An integer field of up to four bytes takes what is in its range. -/
theorem takes_integer_iff (kind : f.kind = .int) (narrow : f.length.toNat ∈ [1, 2, 3, 4]) (v : Int64) :
    f.Takes (some (.integer v)) ↔
      if f.isUnsigned then 0 ≤ v.toInt ∧ v.toInt < 2 ^ (f.length.toNat * 8)
      else -2 ^ (f.length.toNat * 8 - 1) ≤ v.toInt ∧ v.toInt < 2 ^ (f.length.toNat * 8 - 1) := by
  simp only [List.mem_cons, List.not_mem_nil, or_false] at narrow
  have whole : f.length.toNat ≠ 8 := by omega
  have width : 1 ≤ f.length.toNat ∧ f.length.toNat ≤ 4 := by omega
  simp only [StoolapField.Takes, directBytes, kind, intBytes, intFits, if_neg whole, if_pos width]
  split <;> simp only [Bool.decide_and, Bool.and_eq_true, decide_eq_true_eq] <;> split <;> simp_all

theorem takes_text_iff (kind : f.kind = .varchar) (text : List UInt8) :
    f.Takes (some (.text text)) ↔ text.length ≤ f.maxChars.toNat := by
  simp only [StoolapField.Takes, directBytes, kind]
  split
  · rename_i long
    simp only [Option.isSome_none, Bool.false_eq_true, false_iff]
    omega
  · rename_i short
    simp only [Option.isSome_some, true_iff]
    omega

/-- Values every field takes are read back as they were written, with nothing
else changed; values the fields were read as are written back over the same
bytes. -/
theorem record_codec [Stoolap] (layout : Layout fields) (row : Row) (sink : Sink) (record : RecordBuffer)
    (encode : Option (Int32 → RecordBuffer → Except EncodeError Value))
    (takes : ∀ f ∈ fields, f.Takes (row.value f.columnIndex)) :
    ((∀ f ∈ fields, ∀ value, row.value f.columnIndex = some value → f.Owns value) →
      ∃ after, writeRecord fields row sink record = (.ok (), after) ∧
        readValues fields { record := after, encode } =
          .ok (fields.map fun f => row.value f.columnIndex) ∧
        ∀ address keep, (∀ f ∈ fields, ¬ f.Covers address) →
          (∀ f ∈ fields, f.nullMask ≠ 0 → f.nullOffset.toNat = address →
            keep &&& f.nullMask.toUInt8 = 0) →
          after address &&& keep = record address &&& keep) ∧
      ((∀ f ∈ fields, ReadsItself f record) →
        readValues fields { record, encode } = .ok (fields.map fun f => row.value f.columnIndex) →
        writeRecord fields row sink record = (.ok (), record)) ∧
      ∀ f ∈ fields,
        (f.kind = .int → f.length.toNat ∈ [1, 2, 3, 4] → ∀ v, f.Takes (some (.integer v)) ↔
          if f.isUnsigned then 0 ≤ v.toInt ∧ v.toInt < 2 ^ (f.length.toNat * 8)
          else -2 ^ (f.length.toNat * 8 - 1) ≤ v.toInt ∧ v.toInt < 2 ^ (f.length.toNat * 8 - 1)) ∧
        (f.kind = .varchar → ∀ text, f.Takes (some (.text text)) ↔ text.length ≤ f.maxChars.toNat) := by
  have shaped : ∀ f ∈ fields, f.Shaped := fun f member => (layout.wellFormed f member).shaped
  refine ⟨?_, ?_, fun f _ => ⟨takes_integer_iff, takes_text_iff⟩⟩
  · intro own
    refine ⟨writtenAll fields row record, writeRecord_eq takes, ?_, ?_⟩
    · rw [readValues, ExceptList.mapM_ok, List.forall₂_map_right_iff, List.forall₂_same]
      intro f member
      exact readValue_of_holds (shaped f member) (own f member)
        (holds_writtenAll layout takes f member) encode
    · exact fun address keep outside apart => writtenAll_frame shaped outside apart
  · intro itself read
    rw [readValues, ExceptList.mapM_ok, List.forall₂_map_right_iff, List.forall₂_same] at read
    rw [writeRecord_eq takes, writtenAll_of_holds layout.wellFormed takes]
    exact fun f member => holds_of_readValue (shaped f member) (takes f member) (itself f member) (read f member)

/-- A nullable MEDIUMINT and a VARCHAR of three bytes, the NULL bit first. -/
def sampleFields : List StoolapField :=
  [{ column := 0, kind := .int, offset := 1, nullOffset := 0, nullMask := 1, length := 3, maxChars := 0,
     isUnsigned := false, field := 0, packLength := 3 },
   { column := 1, kind := .varchar, offset := 4, nullOffset := 0, nullMask := 0, length := 1, maxChars := 3,
     isUnsigned := false, field := 1, packLength := 4 }]

theorem sampleFields_layout : Layout sampleFields where
  wellFormed f member := by
    rcases List.mem_cons.mp member with rfl | member
    · exact ⟨⟨by decide, by decide⟩, fun _ => ⟨0, by decide, rfl⟩, fun _ covered => absurd covered.1 (by decide)⟩
    · cases List.mem_singleton.mp member
      exact ⟨⟨by decide, by decide, by decide⟩, fun nullable => absurd rfl nullable,
        fun nullable => absurd rfl nullable⟩
  apart := by
    refine List.pairwise_pair.mpr ⟨?_, ?_, ?_, ?_⟩
    · rintro address ⟨_, before⟩ ⟨after, _⟩
      exact absurd (Nat.lt_of_le_of_lt after before) (by decide)
    · exact fun _ covered => absurd covered.1 (by decide)
    · exact fun nullable => absurd rfl nullable
    · exact fun _ nullable => absurd rfl nullable

theorem sampleFields_own : ∀ f ∈ sampleFields, ∀ value,
    Row.value [some (.integer (-2)), some (.text [97, 98])] f.columnIndex = some value → f.Owns value := by
  intro f member value held
  rcases List.mem_cons.mp member with rfl | member
  · cases held
    exact ⟨rfl, fun unsigned => absurd unsigned (by decide)⟩
  · cases List.mem_singleton.mp member
    cases held
    exact ⟨rfl, by decide⟩

theorem record_codec_sample :
    let row : Row := [some (.integer (-2)), some (.text [97, 98])]
    ∃ after, writeRecord sampleFields row { store := none } (fun _ => 0) = (.ok (), after) ∧
      @readValues Stoolap.reference sampleFields { record := after, encode := none } = .ok row ∧
      after 9 &&& 255 = 0 := by
  obtain ⟨after, wrote, read, frame⟩ :=
    (@record_codec _ Stoolap.reference sampleFields_layout [some (.integer (-2)), some (.text [97, 98])]
      { store := none } (fun _ => 0) none (by decide)).1 sampleFields_own
  exact ⟨after, wrote, read, frame 9 255 (by decide) (by decide)⟩

end StoolapMariadb.Record
