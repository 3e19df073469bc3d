import Mathlib.Data.Nat.ModEq
import Mathlib.Tactic.SplitIfs
import Mathlib.Logic.Function.Basic

namespace StoolapMariadb.AutoIncrement

/-! The engine's AUTO_INCREMENT cursors: one map for the process, its entries
made by whichever statement touches a table first, moved up a ladder of ids
that saturates at `UINT64_MAX`. -/

/-- `UINT64_MAX`, both the saturated cursor and the answer that failed. -/
def uint64Max : UInt64 := 18446744073709551615

def roundUpToModulus (cur step offsetMod : UInt64) : UInt64 :=
  if step ≤ 1 then cur
  else
    let offsetMod := if offsetMod ≥ step then offsetMod % step else offsetMod
    let curMod := cur % step
    if curMod = offsetMod then cur
    else
      let bump := if offsetMod > curMod then offsetMod - curMod else step - (curMod - offsetMod)
      if bump > uint64Max - cur then uint64Max else cur + bump

def advanceAfterReservation (first count step : UInt64) : UInt64 :=
  if count ≤ 1 then if first = uint64Max then uint64Max else first + 1
  else
    let spanFactor := count - 1
    if step ≠ 0 ∧ spanFactor > uint64Max / step then uint64Max
    else
      let span := spanFactor * step
      if span > uint64Max - first then uint64Max
      else
        let last := first + span
        if last = uint64Max then uint64Max else last + 1

/-- A count or a step of zero stands for one. -/
def orOne (value : UInt64) : UInt64 := if value = 0 then 1 else value

/-- `ai_next_`: the next id to hand out, for the tables that have an entry. -/
abbrev Cursors := String → Option UInt64

def Cursors.set (cursors : Cursors) (name : String) (next : UInt64) : Cursors :=
  Function.update cursors name (some next)

/-- `Engine::ai_reserve`; nothing when the table has no entry. -/
def aiReserve (cursors : Cursors) (name : String) (count step offsetMod : UInt64) :
    Option (UInt64 × Cursors) :=
  let count := orOne count
  let step := orOne step
  match cursors name with
  | none => none
  | some next =>
      let first := roundUpToModulus next step offsetMod
      some (first, cursors.set name (advanceAfterReservation first count step))

def aiSeedAndReserve (cursors : Cursors) (name : String) (seed count step offsetMod : UInt64) :
    UInt64 × Cursors :=
  let count := orOne count
  let step := orOne step
  let next := (cursors name).getD 0
  let next := if next < seed then seed else next
  let first := roundUpToModulus next step offsetMod
  (first, cursors.set name (advanceAfterReservation first count step))

/-- `Engine::ai_note_explicit`. The entry it makes starts at zero: nothing
here reads the rows the table already has. -/
def aiNoteExplicit (cursors : Cursors) (name : String) (value : UInt64) : Cursors :=
  if value = uint64Max then cursors
  else
    let next := (cursors name).getD 0
    cursors.set name (if next ≤ value then value + 1 else next)

def aiInvalidate (_ : Cursors) : Cursors := fun _ => none

/-- What `SELECT MAX(id)` comes back with: the query fails, or it answers a
value, NULL over an empty table. -/
abbrev MaxQuery := Option (Option Int64)

/-- The id after the largest stored one, negative ids counting as none. -/
def seedAfter (max : Option Int64) : UInt64 :=
  let currentMax :=
    match max with
    | none => 0
    | some raw => if raw > 0 then raw.toUInt64 else 0
  currentMax + 1

/-- What `get_auto_increment` returns to MariaDB, and the increment it used. -/
structure Reservation where
  first : UInt64
  count : UInt64
  step : UInt64

/-- `ha_stoolap::get_auto_increment`, for a table with an AUTO_INCREMENT
column. -/
def getAutoIncrement (cursors : Cursors) (name : String) (offset increment nbDesired : UInt64)
    (maxQuery : MaxQuery) : Reservation × Cursors :=
  let count := orOne nbDesired
  let step := orOne increment
  let offsetMod := if step > 0 then offset % step else 0
  match aiReserve cursors name count step offsetMod with
  | some (first, cursors) => ({ first, count, step }, cursors)
  | none =>
      match maxQuery with
      | none => ({ first := uint64Max, count, step }, cursors)
      | some max =>
          let (first, cursors) := aiSeedAndReserve cursors name (seedAfter max) count step offsetMod
          ({ first, count, step }, cursors)

/-- The ids MariaDB stamps from a reservation. It takes `UINT64_MAX` for a
failure and stamps nothing. -/
def Reservation.ids (reservation : Reservation) : List UInt64 :=
  if reservation.first = uint64Max then []
  else (List.range reservation.count.toNat).map fun index =>
    reservation.first + UInt64.ofNat index * reservation.step

variable {cur step offsetMod first count : UInt64}

theorem uint64Max_toNat : uint64Max.toNat = 2 ^ 64 - 1 := rfl

theorem le_uint64Max (value : UInt64) : value ≤ uint64Max := by
  rw [UInt64.le_iff_toNat_le, uint64Max_toNat]
  have := value.toNat_lt
  omega

theorem room_toNat (value : UInt64) : (uint64Max - value).toNat = uint64Max.toNat - value.toNat :=
  UInt64.toNat_sub_of_le _ _ (le_uint64Max value)

/-- A sum that stops at `UINT64_MAX`, as the guards of both functions make it. -/
theorem saturating_add (left right : UInt64) :
    (if right > uint64Max - left then uint64Max else left + right).toNat =
      min (left.toNat + right.toNat) uint64Max.toNat := by
  have bound := UInt64.le_iff_toNat_le.mp (le_uint64Max left)
  split
  · rename_i past
    rw [gt_iff_lt, UInt64.lt_iff_toNat_lt, room_toNat] at past
    rw [Nat.min_eq_right (by omega)]
  · rename_i fits
    rw [gt_iff_lt, UInt64.lt_iff_toNat_lt, room_toNat] at fits
    have small : left.toNat + right.toNat ≤ uint64Max.toNat := by omega
    rw [uint64Max_toNat] at small
    rw [UInt64.toNat_add, Nat.mod_eq_of_lt (by omega), Nat.min_eq_left (by rw [uint64Max_toNat]; omega)]

/-- The next id of the ladder is less than one step from the cursor, and
saturates. -/
theorem roundUpToModulus_toNat (cur offsetMod : UInt64) (wide : 0 < step.toNat) :
    ∃ bump, bump < step.toNat ∧ (cur.toNat + bump) % step.toNat = offsetMod.toNat % step.toNat ∧
      (roundUpToModulus cur step offsetMod).toNat = min (cur.toNat + bump) uint64Max.toNat := by
  have still := Nat.min_eq_left (UInt64.le_iff_toNat_le.mp (le_uint64Max cur))
  by_cases narrow : step ≤ 1
  · have one : step.toNat = 1 := by
      rw [UInt64.le_iff_toNat_le, UInt64.toNat_one] at narrow
      omega
    refine ⟨0, wide, ?_, ?_⟩
    · rw [one, Nat.mod_one, Nat.mod_one]
    · rw [roundUpToModulus, if_pos narrow, Nat.add_zero, still]
  · have target : (if offsetMod ≥ step then offsetMod % step else offsetMod).toNat =
        offsetMod.toNat % step.toNat := by
      split
      · exact UInt64.toNat_mod _ _
      · rename_i below
        simp only [ge_iff_le, UInt64.le_iff_toNat_le] at below
        exact (Nat.mod_eq_of_lt (by omega)).symm
    simp only [roundUpToModulus, if_neg narrow]
    generalize (if offsetMod ≥ step then offsetMod % step else offsetMod) = wanted at target
    have curMod : (cur % step).toNat = cur.toNat % step.toNat := UInt64.toNat_mod _ _
    have wantedBelow : wanted.toNat < step.toNat := by rw [target]; exact Nat.mod_lt _ wide
    have curBelow : (cur % step).toNat < step.toNat := by rw [curMod]; exact Nat.mod_lt _ wide
    have whole := Nat.div_add_mod cur.toNat step.toNat
    rw [← target]
    by_cases same : cur % step = wanted
    · refine ⟨0, wide, ?_, ?_⟩
      · rw [Nat.add_zero, ← curMod, same]
      · rw [if_pos same, Nat.add_zero, still]
    · rw [if_neg same, saturating_add]
      have apart : (cur % step).toNat ≠ wanted.toNat := fun equal => same (UInt64.toNat_inj.mp equal)
      -- The residue is ahead in this lap of the ladder, or in the next one.
      by_cases ahead : wanted > cur % step
      · have ahead' : (cur % step).toNat < wanted.toNat := UInt64.lt_iff_toNat_lt.mp ahead
        have bump : (wanted - cur % step).toNat = wanted.toNat - (cur % step).toNat :=
          UInt64.toNat_sub_of_le _ _ (UInt64.le_iff_toNat_le.mpr (by omega))
        refine ⟨wanted.toNat - (cur % step).toNat, by omega, ?_, ?_⟩
        · have lap : cur.toNat + (wanted.toNat - (cur % step).toNat) =
              wanted.toNat + step.toNat * (cur.toNat / step.toNat) := by omega
          rw [lap, Nat.add_mul_mod_self_left, Nat.mod_eq_of_lt wantedBelow]
        · rw [if_pos ahead, bump]
      · have behind : wanted.toNat < (cur % step).toNat := by
          simp only [gt_iff_lt, UInt64.lt_iff_toNat_lt] at ahead
          omega
        have gap : (cur % step - wanted).toNat = (cur % step).toNat - wanted.toNat :=
          UInt64.toNat_sub_of_le _ _ (UInt64.le_iff_toNat_le.mpr (by omega))
        have bump : (step - (cur % step - wanted)).toNat =
            step.toNat - ((cur % step).toNat - wanted.toNat) := by
          rw [UInt64.toNat_sub_of_le _ _ (UInt64.le_iff_toNat_le.mpr (by omega)), gap]
        refine ⟨step.toNat - ((cur % step).toNat - wanted.toNat), by omega, ?_, ?_⟩
        · have lap : cur.toNat + (step.toNat - ((cur % step).toNat - wanted.toNat)) =
              wanted.toNat + step.toNat * (cur.toNat / step.toNat + 1) := by
            rw [Nat.mul_add, Nat.mul_one]
            omega
          rw [lap, Nat.add_mul_mod_self_left, Nat.mod_eq_of_lt wantedBelow]
        · rw [if_neg ahead, bump]

/-- Rounding never moves the cursor down, saturated or not. -/
theorem le_roundUpToModulus (cur offsetMod : UInt64) (wide : 0 < step.toNat) :
    cur.toNat ≤ (roundUpToModulus cur step offsetMod).toNat := by
  obtain ⟨bump, _, _, rounded⟩ := roundUpToModulus_toNat cur offsetMod wide
  have bound := UInt64.le_iff_toNat_le.mp (le_uint64Max cur)
  omega

theorem roundUpToModulus_lt (cur offsetMod : UInt64) (wide : 0 < step.toNat) :
    (roundUpToModulus cur step offsetMod).toNat < cur.toNat + step.toNat := by
  obtain ⟨bump, small, _, rounded⟩ := roundUpToModulus_toNat cur offsetMod wide
  omega

/-- The cursor moves to one past the last reserved id, and saturates. -/
theorem advanceAfterReservation_toNat (first : UInt64) (some' : 0 < count.toNat)
    (wide : 0 < step.toNat) :
    (advanceAfterReservation first count step).toNat =
      min (first.toNat + (count.toNat - 1) * step.toNat + 1) uint64Max.toNat := by
  have next (last : UInt64) : (if last = uint64Max then uint64Max else last + 1).toNat =
      min (last.toNat + 1) uint64Max.toNat := by
    have bound := UInt64.le_iff_toNat_le.mp (le_uint64Max last)
    split
    · rename_i saturated
      rw [saturated, Nat.min_eq_right (Nat.le_succ _)]
    · rename_i unsaturated
      have below : last.toNat ≠ uint64Max.toNat := fun equal => unsaturated (UInt64.toNat_inj.mp equal)
      rw [uint64Max_toNat] at bound below ⊢
      rw [UInt64.toNat_add, UInt64.toNat_one, Nat.mod_eq_of_lt (by omega), Nat.min_eq_left (by omega)]
  by_cases single : count ≤ 1
  · have one : count.toNat = 1 := by
      rw [UInt64.le_iff_toNat_le, UInt64.toNat_one] at single
      omega
    rw [advanceAfterReservation, if_pos single, next, one, Nat.sub_self, Nat.zero_mul, Nat.add_zero]
  · have many : 1 < count.toNat := by
      rw [UInt64.le_iff_toNat_le, UInt64.toNat_one] at single
      omega
    have factor : (count - 1).toNat = count.toNat - 1 :=
      UInt64.toNat_sub_of_le _ _ (UInt64.le_iff_toNat_le.mpr (by rw [UInt64.toNat_one]; omega))
    simp only [advanceAfterReservation, if_neg single]
    by_cases clipped : step ≠ 0 ∧ count - 1 > uint64Max / step
    · have past : uint64Max.toNat < (count.toNat - 1) * step.toNat := by
        have quotient := clipped.2
        rwa [gt_iff_lt, UInt64.lt_iff_toNat_lt, factor, UInt64.toNat_div,
          Nat.div_lt_iff_lt_mul wide] at quotient
      rw [if_pos clipped, Nat.min_eq_right (by omega)]
    · rw [if_neg clipped]
      have within : (count.toNat - 1) * step.toNat ≤ uint64Max.toNat := by
        rcases not_and_or.mp clipped with zero | quotient
        · rw [ne_eq, not_not] at zero
          rw [zero] at wide
          exact absurd wide (by decide)
        · rwa [gt_iff_lt, UInt64.lt_iff_toNat_lt, factor, UInt64.toNat_div,
            Nat.div_lt_iff_lt_mul wide, not_lt] at quotient
      have span : ((count - 1) * step).toNat = (count.toNat - 1) * step.toNat := by
        rw [uint64Max_toNat] at within
        rw [UInt64.toNat_mul, factor, Nat.mod_eq_of_lt (by omega)]
      have last := saturating_add first ((count - 1) * step)
      by_cases far : (count - 1) * step > uint64Max - first
      · rw [if_pos far, span] at last
        rw [if_pos far]
        generalize uint64Max.toNat = limit at last ⊢
        omega
      · rw [if_neg far, span] at last
        rw [if_neg far, next, last]
        generalize uint64Max.toNat = limit
        omega

theorem orOne_pos (value : UInt64) : 0 < (orOne value).toNat := by
  rw [orOne]
  split
  · decide
  · rename_i nonzero
    exact Nat.pos_of_ne_zero fun zero => nonzero (UInt64.toNat_inj.mp zero)

@[simp] theorem orOne_orOne (value : UInt64) : orOne (orOne value) = orOne value := by
  rw [orOne, if_neg]
  intro zero
  have := orOne_pos value
  rw [zero] at this
  exact absurd this (by decide)

@[simp] theorem Cursors.set_self (cursors : Cursors) (name : String) (next : UInt64) :
    cursors.set name next name = some next :=
  Function.update_self _ _ _

/-- The reservation made from where the cursor stands. -/
def reservationFrom (start offset increment nbDesired : UInt64) : Reservation where
  first := roundUpToModulus start (orOne increment) (offset % orOne increment)
  count := orOne nbDesired
  step := orOne increment

def Reservation.next (reservation : Reservation) : UInt64 :=
  advanceAfterReservation reservation.first reservation.count reservation.step

variable {offset increment nbDesired : UInt64}

/-- The ids a reservation from `start` hands out stay clear of `UINT64_MAX`. -/
def FarFrom (start increment nbDesired : UInt64) : Prop :=
  start.toNat + (orOne increment).toNat + (orOne nbDesired).toNat * (orOne increment).toNat ≤
    uint64Max.toNat

theorem reservationFrom_first_lt (start offset increment nbDesired : UInt64) :
    (reservationFrom start offset increment nbDesired).first.toNat <
      start.toNat + (orOne increment).toNat :=
  roundUpToModulus_lt start _ (orOne_pos increment)

theorem reservationFrom_next {start : UInt64} (far : FarFrom start increment nbDesired) :
    (reservationFrom start offset increment nbDesired).next.toNat =
      (reservationFrom start offset increment nbDesired).first.toNat +
        ((orOne nbDesired).toNat - 1) * (orOne increment).toNat + 1 := by
  have first := reservationFrom_first_lt start offset increment nbDesired
  have advanced := advanceAfterReservation_toNat
    (reservationFrom start offset increment nbDesired).first (orOne_pos nbDesired) (orOne_pos increment)
  have spread : (orOne nbDesired).toNat * (orOne increment).toNat =
      ((orOne nbDesired).toNat - 1) * (orOne increment).toNat + (orOne increment).toNat := by
    rw [Nat.sub_mul, Nat.one_mul, Nat.sub_add_cancel]
    exact Nat.le_mul_of_pos_left _ (orOne_pos nbDesired)
  rw [FarFrom] at far
  exact advanced.trans (Nat.min_eq_left (by omega))

theorem reservationFrom_start_le (start offset increment nbDesired : UInt64) :
    start.toNat ≤ (reservationFrom start offset increment nbDesired).first.toNat :=
  le_roundUpToModulus start _ (orOne_pos increment)

/-- Far from saturation the ids are the first one and its steps. -/
theorem reservationFrom_ids {start : UInt64} (offset : UInt64)
    (far : FarFrom start increment nbDesired) :
    (reservationFrom start offset increment nbDesired).ids.map UInt64.toNat =
      (List.range (orOne nbDesired).toNat).map fun index =>
        (reservationFrom start offset increment nbDesired).first.toNat +
          index * (orOne increment).toNat := by
  have first := reservationFrom_first_lt start offset increment nbDesired
  have wide := orOne_pos increment
  have unsaturated : (reservationFrom start offset increment nbDesired).first ≠ uint64Max := by
    intro saturated
    rw [saturated] at first
    rw [FarFrom] at far
    have := Nat.mul_pos (orOne_pos nbDesired) wide
    omega
  rw [Reservation.ids, if_neg unsaturated, List.map_map]
  apply List.map_congr_left
  intro index member
  have below : index < (orOne nbDesired).toNat := List.mem_range.mp member
  have within : index * (orOne increment).toNat + (orOne increment).toNat ≤
      (orOne nbDesired).toNat * (orOne increment).toNat := by
    rw [← Nat.succ_mul]
    exact Nat.mul_le_mul_right _ below
  rw [FarFrom, uint64Max_toNat] at far
  have small : index < 2 ^ 64 := Nat.lt_trans below (orOne nbDesired).toNat_lt
  have product : (UInt64.ofNat index * orOne increment).toNat = index * (orOne increment).toNat := by
    rw [UInt64.toNat_mul, UInt64.toNat_ofNat', Nat.mod_eq_of_lt small, Nat.mod_eq_of_lt (by omega)]
  simp only [Function.comp_apply, reservationFrom] at first ⊢
  rw [UInt64.toNat_add, product, Nat.mod_eq_of_lt (by omega)]

end StoolapMariadb.AutoIncrement
