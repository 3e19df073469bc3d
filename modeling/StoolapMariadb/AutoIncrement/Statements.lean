import StoolapMariadb.Lib.Runs
import StoolapMariadb.AutoIncrement.Cursor

namespace StoolapMariadb.AutoIncrement

/-! Runs of statements over one table's AUTO_INCREMENT column. The table is
the list of its stored ids; its cursor is right when it is above all of
them. -/

/-- The engine's cursors beside one table's stored ids. -/
structure State where
  cursors : Cursors
  stored : List Int64

/-- `ha_stoolap::write_row` with the id already in the field: it is noted,
then the row is written unless the encoder refuses an unsigned id past
`INT64_MAX` or the engine refuses the row. -/
def writeRow (name : String) (unsignedCol : Bool) (accepted : Bool) (state : State) (sv : Int64) :
    State where
  cursors :=
    if unsignedCol || sv > 0 then aiNoteExplicit state.cursors name sv.toUInt64
    else state.cursors
  stored :=
    if accepted && !(unsignedCol && sv < 0) then state.stored ++ [sv] else state.stored

/-- `MAX(id)` over the table. -/
def maxStored : List Int64 → Option Int64
  | [] => none
  | id :: ids =>
      match maxStored ids with
      | none => some id
      | some max => some (if max < id then id else max)

/-- The rows of a generated INSERT, up to the first one that is refused: an id
past `INT64_MAX` does not fit a signed field, and an unsigned one is noted
before the encoder refuses it. -/
def writeGenerated (name : String) (unsignedCol : Bool) : State → List UInt64 → State
  | state, [] => state
  | state, id :: ids =>
      if id < 9223372036854775808 then
        writeGenerated name unsignedCol (writeRow name unsignedCol true state id.toInt64) ids
      else if unsignedCol then writeRow name unsignedCol true state id.toInt64
      else state

/-- What one statement does to the table: an INSERT of an explicit id, an
INSERT of `rows` generated ones (at most the number reserved), the removal of
a row, a DDL that drops the cursors. -/
inductive Op where
  | explicit (unsignedCol : Bool) (value : Int64) (accepted : Bool)
  | generated (unsignedCol : Bool) (offset increment nbDesired : UInt64) (queried : Bool) (rows : Nat)
  | delete (id : Int64)
  | invalidate

/-- The reservation a generated INSERT makes in a state. -/
def reserve (name : String) (state : State) (offset increment nbDesired : UInt64) (queried : Bool) :
    Reservation × Cursors :=
  getAutoIncrement state.cursors name offset increment nbDesired
    (if queried then some (maxStored state.stored) else none)

def step (name : String) (state : State) : Op → State
  | .explicit unsignedCol value accepted => writeRow name unsignedCol accepted state value
  | .generated unsignedCol offset increment nbDesired queried rows =>
      let (reservation, cursors) := reserve name state offset increment nbDesired queried
      writeGenerated name unsignedCol { state with cursors } (reservation.ids.take rows)
  | .delete id => { state with stored := state.stored.filter (· ≠ id) }
  | .invalidate => { state with cursors := aiInvalidate state.cursors }

variable {name : String} {state : State} {offset increment nbDesired : UInt64} {queried : Bool}

/-- Where a reservation starts: at the entry, else after the stored ids. -/
def State.start (state : State) (name : String) : UInt64 :=
  (state.cursors name).getD (seedAfter (maxStored state.stored))

theorem offsetMod_eq : (if orOne increment > 0 then offset % orOne increment else 0) =
    offset % orOne increment := by
  rw [if_pos]
  rw [gt_iff_lt, UInt64.lt_iff_toNat_lt]
  exact orOne_pos increment

/-- With an entry, or without one and a `MAX` that answered, both ways of
reserving come to one: from the start, moving the cursor past the last id. -/
theorem reserve_answered (answered : state.cursors name ≠ none ∨ queried = true) :
    reserve name state offset increment nbDesired queried =
      (reservationFrom (state.start name) offset increment nbDesired,
        state.cursors.set name (reservationFrom (state.start name) offset increment nbDesired).next) := by
  cases entry : state.cursors name with
  | some next =>
      simp [reserve, getAutoIncrement, aiReserve, entry, State.start, reservationFrom,
        Reservation.next, offsetMod_eq]
  | none =>
      have asked : queried = true := by simpa [entry] using answered
      have seeds (seed : UInt64) : (if 0 < seed then seed else 0) = seed := by
        split
        · rfl
        · rename_i zero
          exact (UInt64.le_antisymm (UInt64.not_lt.mp zero) (UInt64.zero_le)).symm
      simp [reserve, getAutoIncrement, aiReserve, aiSeedAndReserve, entry, asked, State.start,
        reservationFrom, Reservation.next, offsetMod_eq, seeds]

/-- A failed `MAX` reserves nothing. -/
theorem reserve_failed (offset increment nbDesired : UInt64) (absent : state.cursors name = none) :
    (reserve name state offset increment nbDesired false).1.ids = [] ∧
      (reserve name state offset increment nbDesired false).2 = state.cursors := by
  simp [reserve, getAutoIncrement, aiReserve, absent, Reservation.ids]

/-- The cursor of the table, when it has one, is above every stored id. -/
def AboveStored (name : String) (state : State) : Prop :=
  ∀ next, state.cursors name = some next →
    0 < next.toNat ∧ ∀ id ∈ state.stored, id.toInt < next.toNat

/-- An explicit id that makes the entry is not below a stored one. -/
def SeededAbove (name : String) (state : State) : Op → Prop
  | .explicit unsignedCol value _ =>
      state.cursors name = none → unsignedCol = true ∨ 0 < value →
        ∀ id ∈ state.stored, id.toInt ≤ value.toUInt64.toNat
  | _ => True

def FarFromSaturation (name : String) (state : State) : Op → Prop
  | .generated _ _ increment nbDesired _ _ => FarFrom (state.start name) increment nbDesired
  | _ => True

/-- The ids a generated INSERT hands out increase from above every stored id. -/
def FreshIds (name : String) (state : State) : Op → Prop
  | .generated _ offset increment nbDesired queried _ =>
      let ids := (reserve name state offset increment nbDesired queried).1.ids
      (∀ id ∈ ids, ∀ stored ∈ state.stored, stored.toInt < id.toNat) ∧ ids.Pairwise (· < ·)
  | _ => True

instance (name : String) (state : State) (op : Op) : Decidable (SeededAbove name state op) :=
  match op with
  | .explicit _ _ _ => inferInstanceAs (Decidable (_ → _ → _))
  | .generated .. | .delete _ | .invalidate => .isTrue trivial

instance (name : String) (state : State) (op : Op) : Decidable (FarFromSaturation name state op) :=
  match op with
  | .generated .. => inferInstanceAs (Decidable (_ ≤ _))
  | .explicit .. | .delete _ | .invalidate => .isTrue trivial

theorem toUInt64_toNat {value : Int64} (nonnegative : 0 ≤ value) :
    (value.toUInt64.toNat : Int) = value.toInt := by
  have bound : 0 ≤ value.toInt := Int64.le_iff_toInt_le.mp nonnegative
  rw [Int64.toNat_toUInt64_of_le nonnegative, ← Int64.toNat_toInt, Int.toNat_of_nonneg bound]

theorem le_maxStored {stored : List Int64} {max : Int64} (found : maxStored stored = some max) :
    ∀ id ∈ stored, id ≤ max := by
  induction stored generalizing max with
  | nil => simp
  | cons head tail ih =>
      simp only [maxStored] at found
      cases rest : maxStored tail with
      | none =>
          have empty : tail = [] := by
            cases tail with
            | nil => rfl
            | cons next others =>
                simp only [maxStored] at rest
                split at rest <;> contradiction
          simp only [rest, Option.some.injEq] at found
          subst found empty
          simp
      | some largest =>
          have below := ih rest
          simp only [rest, Option.some.injEq] at found
          subst found
          intro id member
          split
          · rename_i less
            rcases List.mem_cons.mp member with same | member
            · exact Int64.le_of_eq same
            · exact Int64.le_trans (below id member) (Int64.le_of_lt less)
          · rename_i notLess
            rcases List.mem_cons.mp member with same | member
            · exact same ▸ Int64.not_lt.mp notLess
            · exact below id member

theorem maxStored_none {stored : List Int64} (empty : maxStored stored = none) : stored = [] := by
  cases stored with
  | nil => rfl
  | cons head tail =>
      simp only [maxStored] at empty
      split at empty <;> contradiction

theorem seedAfter_above (stored : List Int64) :
    ∀ id ∈ stored, id.toInt < (seedAfter (maxStored stored)).toNat := by
  intro id member
  cases found : maxStored stored with
  | none => simp [maxStored_none found] at member
  | some max =>
      have below : id.toInt ≤ max.toInt := Int64.le_iff_toInt_le.mp (le_maxStored found id member)
      simp only [seedAfter]
      split
      · rename_i positive
        have value := toUInt64_toNat (Int64.le_of_lt positive)
        have small := max.toInt_lt
        rw [UInt64.toNat_add, UInt64.toNat_one, Nat.mod_eq_of_lt (by omega)]
        omega
      · rename_i negative
        have atMost : max.toInt ≤ 0 := Int64.le_iff_toInt_le.mp (Int64.not_lt.mp negative)
        change id.toInt < ((1 : Nat) : Int)
        omega

/-- One row written keeps the cursor above the stored ids, when its id makes
no entry below them. -/
theorem writeRow_above {unsignedCol accepted : Bool} {sv : Int64} (above : AboveStored name state)
    (seeded : SeededAbove name state (.explicit unsignedCol sv accepted)) :
    AboveStored name (writeRow name unsignedCol accepted state sv) := by
  intro next entry
  have added : ∀ id ∈ (writeRow name unsignedCol accepted state sv).stored,
      id ∈ state.stored ∨ id = sv ∧ ¬ (unsignedCol = true ∧ sv < 0) := by
    intro id member
    simp only [writeRow] at member
    split at member
    · rename_i written
      rcases List.mem_append.mp member with old | new
      · exact .inl old
      · refine .inr ⟨List.mem_singleton.mp new, ?_⟩
        rintro ⟨isUnsigned, negative⟩
        simp [isUnsigned, negative] at written
    · exact .inl member
  by_cases noted : unsignedCol = true ∨ 0 < sv
  · have guard : (unsignedCol || decide (sv > 0)) = true := by simpa using noted
    simp only [writeRow, guard, if_true, aiNoteExplicit] at entry
    split at entry
    · -- `UINT64_MAX` is -1 in an unsigned column: neither noted nor written.
      rename_i saturated
      have minusOne : sv = -1 := by
        have value := congrArg UInt64.toInt64 saturated
        rwa [Int64.toInt64_toUInt64] at value
      subst minusOne
      have isUnsigned : unsignedCol = true := noted.resolve_right (by decide)
      obtain ⟨positive, below⟩ := above next entry
      refine ⟨positive, fun id member => ?_⟩
      rcases added id member with old | ⟨_, refused⟩
      · exact below id old
      · exact absurd ⟨isUnsigned, by decide⟩ refused
    · rename_i unsaturated
      rw [Cursors.set_self, Option.some.injEq] at entry
      have room : sv.toUInt64.toNat < uint64Max.toNat := by
        have bound := UInt64.le_iff_toNat_le.mp (le_uint64Max sv.toUInt64)
        have apart : sv.toUInt64.toNat ≠ uint64Max.toNat := fun same =>
          unsaturated (UInt64.toNat_inj.mp same)
        omega
      have succ : (sv.toUInt64 + 1).toNat = sv.toUInt64.toNat + 1 := by
        rw [UInt64.toNat_add, UInt64.toNat_one, Nat.mod_eq_of_lt (by rw [uint64Max_toNat] at room; omega)]
      have past : sv.toUInt64.toNat < next.toNat := by
        subst entry
        split
        · omega
        · rename_i higher
          exact UInt64.lt_iff_toNat_lt.mp (UInt64.not_le.mp higher)
      refine ⟨by omega, fun id member => ?_⟩
      rcases added id member with old | ⟨rfl, fits⟩
      · cases before : state.cursors name with
        | none =>
            have := seeded before noted id old
            omega
        | some cursor =>
            have below := (above cursor before).2 id old
            have kept : cursor.toNat ≤ next.toNat := by
              subst entry
              simp only [before, Option.getD_some]
              split
              · rename_i passed
                have := UInt64.le_iff_toNat_le.mp passed
                omega
              · exact Nat.le_refl _
            omega
      · have nonnegative : 0 ≤ id := by
          rcases noted with isUnsigned | positive
          · exact Int64.not_lt.mp fun negative => fits ⟨isUnsigned, negative⟩
          · exact Int64.le_of_lt positive
        rw [← toUInt64_toNat nonnegative]
        omega
  · obtain ⟨isSigned, notPositive⟩ := not_or.mp noted
    have guard : (unsignedCol || decide (sv > 0)) = false := by simpa using noted
    simp only [writeRow, guard, Bool.false_eq_true, if_false] at entry
    obtain ⟨positive, below⟩ := above next entry
    refine ⟨positive, fun id member => ?_⟩
    rcases added id member with old | ⟨rfl, _⟩
    · exact below id old
    · have atMost : id.toInt ≤ 0 := Int64.le_iff_toInt_le.mp (Int64.not_lt.mp notPositive)
      omega

theorem writeRow_entry {unsignedCol accepted : Bool} {sv : Int64}
    (present : state.cursors name ≠ none) :
    (writeRow name unsignedCol accepted state sv).cursors name ≠ none := by
  simp only [writeRow]
  split
  · simp only [aiNoteExplicit]
    split
    · exact present
    · rw [Cursors.set_self]
      exact Option.some_ne_none _
  · exact present

/-- Once the table has an entry its rows cannot overtake it. -/
theorem writeRow_above_of_entry {unsignedCol accepted : Bool} {sv : Int64}
    (above : AboveStored name state) (present : state.cursors name ≠ none) :
    AboveStored name (writeRow name unsignedCol accepted state sv) :=
  writeRow_above above fun absent => absurd absent present

theorem writeGenerated_above {unsignedCol : Bool} {ids : List UInt64}
    (above : AboveStored name state) (present : state.cursors name ≠ none) :
    AboveStored name (writeGenerated name unsignedCol state ids) := by
  induction ids generalizing state with
  | nil => exact above
  | cons id ids ih =>
      simp only [writeGenerated]
      split
      · exact ih (writeRow_above_of_entry above present) (writeRow_entry present)
      · split
        · exact writeRow_above_of_entry above present
        · exact above

/-- Under the invariant a reservation starts above every stored id, whether
from the entry or from `MAX(id)`. -/
theorem start_above (above : AboveStored name state) :
    ∀ id ∈ state.stored, id.toInt < (state.start name).toNat := by
  intro id member
  cases entry : state.cursors name with
  | some next => simpa [State.start, entry] using (above next entry).2 id member
  | none => simpa [State.start, entry] using seedAfter_above state.stored id member

theorem step_above (op : Op) (above : AboveStored name state)
    (guard : SeededAbove name state op ∧ FarFromSaturation name state op) :
    AboveStored name (step name state op) := by
  cases op with
  | explicit unsignedCol value accepted => exact writeRow_above above guard.1
  | generated unsignedCol offset increment nbDesired queried rows =>
      by_cases answered : state.cursors name ≠ none ∨ queried = true
      · simp only [step, reserve_answered answered]
        refine writeGenerated_above ?_ (by simp)
        intro next entry
        simp only [Cursors.set_self, Option.some.injEq] at entry
        subst entry
        rw [reservationFrom_next guard.2]
        have from' := reservationFrom_start_le (state.start name) offset increment nbDesired
        refine ⟨by omega, fun id member => ?_⟩
        have := start_above above id member
        omega
      · obtain ⟨absent, notQueried⟩ := not_or.mp answered
        have absent : state.cursors name = none := not_not.mp absent
        have notQueried : queried = false := by simpa using notQueried
        subst notQueried
        obtain ⟨empty, same⟩ := reserve_failed offset increment nbDesired absent
        simp only [step, empty, same, List.take_nil, writeGenerated]
        exact above
  | delete id =>
      intro next entry
      obtain ⟨positive, below⟩ := above next entry
      exact ⟨positive, fun other member => below other (List.mem_filter.mp member).1⟩
  | invalidate =>
      intro next entry
      exact absurd entry (by simp [step, aiInvalidate])

theorem reservationFrom_increasing {start : UInt64} (far : FarFrom start increment nbDesired) :
    (reservationFrom start offset increment nbDesired).ids.Pairwise (· < ·) := by
  have increasing : ((reservationFrom start offset increment nbDesired).ids.map UInt64.toNat).Pairwise
      (· < ·) := by
    rw [reservationFrom_ids offset far, List.pairwise_map]
    refine List.pairwise_lt_range.imp fun {first second} before => ?_
    have := Nat.mul_lt_mul_of_pos_right before (orOne_pos increment)
    omega
  rw [List.pairwise_map] at increasing
  exact increasing.imp fun before => UInt64.lt_iff_toNat_lt.mpr before

theorem step_fresh (op : Op) (above : AboveStored name state)
    (guard : SeededAbove name state op ∧ FarFromSaturation name state op) :
    FreshIds name state op := by
  cases op with
  | generated unsignedCol offset increment nbDesired queried rows =>
      by_cases answered : state.cursors name ≠ none ∨ queried = true
      · simp only [FreshIds, reserve_answered answered]
        refine ⟨fun id member stored old => ?_, reservationFrom_increasing guard.2⟩
        have inside : id.toNat ∈ (reservationFrom (state.start name) offset increment nbDesired).ids.map
            UInt64.toNat := List.mem_map_of_mem member
        rw [reservationFrom_ids offset guard.2] at inside
        obtain ⟨index, _, value⟩ := List.mem_map.mp inside
        have from' := reservationFrom_start_le (state.start name) offset increment nbDesired
        have below := start_above above stored old
        omega
      · obtain ⟨absent, notQueried⟩ := not_or.mp answered
        have notQueried : queried = false := by simpa using notQueried
        subst notQueried
        simp [FreshIds, reserve_failed offset increment nbDesired (not_not.mp absent)]
  | explicit => trivial
  | delete => trivial
  | invalidate => trivial

/-- Every run from a server start in which no explicit id makes the entry
below a stored id hands out only fresh ids. -/
theorem generated_ids_fresh {start : State} {ops : List Op} (absent : start.cursors name = none)
    (seeded : Runs.Along (step name) (SeededAbove name) start ops)
    (far : Runs.Along (step name) (FarFromSaturation name) start ops) :
    Runs.Along (step name) (FreshIds name) start ops :=
  Runs.along_of_step (fun _ op above guard => step_above op above guard)
    (fun _ op above guard => step_fresh op above guard)
    (fun next entry => absurd entry (by simp [absent])) (Runs.along_and.mpr ⟨seeded, far⟩)

/-- A run through every kind of operation: ids 1 to 3 and then 7 and 9 are
stored, the row of id 9 goes, a DDL drops the cursor. -/
theorem generated_ids_fresh_run :
    Runs.Along (step "t") (FreshIds "t") { cursors := fun _ => none, stored := [-2, 1] }
      [.explicit false 3 true, .generated false 1 2 2 true 2, .delete 9, .invalidate,
        .explicit true 40 true, .generated true 1 1 1 true 1] := by
  have below (stored : List Int64) (value : Int64)
      (every : (stored.all fun id => id.toInt ≤ value.toUInt64.toNat) = true) :
      ∀ id ∈ stored, id.toInt ≤ value.toUInt64.toNat := by simpa using every
  exact generated_ids_fresh rfl
    ⟨fun _ _ => below [-2, 1] 3 rfl, trivial, trivial, trivial, fun _ _ => below _ 40 rfl, trivial, trivial⟩
    ⟨trivial, by decide, trivial, trivial, trivial, by decide, trivial⟩

/-- An explicit id below a stored one makes the entry below it, and the next
generated id is at most that stored one. -/
theorem stale_after_low_explicit {value stored : Int64} (absent : state.cursors name = none)
    (positive : 0 < value) (held : stored ∈ state.stored) (low : value < stored) :
    ¬ FreshIds name (writeRow name false true state value) (.generated false 1 1 1 true 1) := by
  have noted := toUInt64_toNat (Int64.le_of_lt positive)
  have above : value.toInt < stored.toInt := Int64.lt_iff_toInt_lt.mp low
  have small := stored.toInt_lt
  have unsaturated : value.toUInt64 ≠ uint64Max := by
    intro saturated
    rw [saturated, uint64Max_toNat] at noted
    omega
  have entry : (writeRow name false true state value).cursors name = some (value.toUInt64 + 1) := by
    simp [writeRow, positive, aiNoteExplicit, unsaturated, absent]
  have start : (writeRow name false true state value).start name = value.toUInt64 + 1 := by
    simp [State.start, entry]
  have succ : (value.toUInt64 + 1).toNat = value.toUInt64.toNat + 1 := by
    rw [UInt64.toNat_add, UInt64.toNat_one, Nat.mod_eq_of_lt (by omega)]
  have far : FarFrom (value.toUInt64 + 1) 1 1 := by
    have one : (orOne 1).toNat = 1 := rfl
    rw [FarFrom, one, succ, uint64Max_toNat]
    omega
  have first : (reservationFrom (value.toUInt64 + 1) 1 1 1).first = value.toUInt64 + 1 := rfl
  have ids := reservationFrom_ids 1 far
  have one : (orOne 1).toNat = 1 := rfl
  rw [one, first] at ids
  intro fresh
  simp only [FreshIds, reserve_answered (.inl (entry ▸ Option.some_ne_none _)), start] at fresh
  obtain ⟨id, member, isFirst⟩ : ∃ id ∈ (reservationFrom (value.toUInt64 + 1) 1 1 1).ids,
      id.toNat = (value.toUInt64 + 1).toNat := by
    have inside : (value.toUInt64 + 1).toNat ∈
        (reservationFrom (value.toUInt64 + 1) 1 1 1).ids.map UInt64.toNat := by
      rw [ids]
      exact List.mem_map.mpr ⟨0, by simp, by simp⟩
    exact List.mem_map.mp inside
  have kept : stored ∈ (writeRow name false true state value).stored := by
    simp [writeRow, held]
  have := fresh.1 id member stored kept
  omega

/-- A row with id 2 and an explicit 1 after a restart: the generated id is 2. -/
theorem generated_id_collides :
    ¬ (Runs.Along (step "t") (FarFromSaturation "t") { cursors := fun _ => none, stored := [2] }
          [.explicit false 1 true, .generated false 1 1 1 true 1] →
        Runs.Along (step "t") (FreshIds "t") { cursors := fun _ => none, stored := [2] }
          [.explicit false 1 true, .generated false 1 1 1 true 1]) := by
  intro claimed
  obtain ⟨_, ⟨fresh, _⟩, _⟩ := claimed ⟨trivial, by decide, trivial⟩
  exact absurd (fresh 2 (by decide) 2 (by decide)) (by decide)

end StoolapMariadb.AutoIncrement
