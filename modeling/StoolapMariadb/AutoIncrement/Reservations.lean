import StoolapMariadb.Lib.Runs
import StoolapMariadb.AutoIncrement.Cursor

namespace StoolapMariadb.AutoIncrement

/-! Calls of any sessions on one table's cursor, in the order the engine's
lock lets them through, and what each of them leaves behind. -/

inductive Call where
  | reserve (count step offsetMod : UInt64)
  | seedAndReserve (seed count step offsetMod : UInt64)
  | noteExplicit (value : UInt64)

inductive Event where
  | reserved (first count step offsetMod : UInt64)
  | noted (value : UInt64)

/-- A call's event, none from a reservation without an entry, and the cursors
after it. -/
def Call.run (name : String) (cursors : Cursors) : Call → Option Event × Cursors
  | .reserve count step offsetMod =>
      match aiReserve cursors name count step offsetMod with
      | none => (none, cursors)
      | some (first, cursors) => (some (.reserved first count step offsetMod), cursors)
  | .seedAndReserve seed count step offsetMod =>
      let (first, cursors) := aiSeedAndReserve cursors name seed count step offsetMod
      (some (.reserved first count step offsetMod), cursors)
  | .noteExplicit value => (some (.noted value), aiNoteExplicit cursors name value)

def Call.after (name : String) (cursors : Cursors) (call : Call) : Cursors := (call.run name cursors).2

/-- The events of a list of calls, in order. -/
def history (name : String) : Cursors → List Call → List Event
  | _, [] => []
  | cursors, call :: calls =>
      (call.run name cursors).1.toList ++ history name (call.after name cursors) calls

/-- The ids a reservation stands for, as numbers that do not wrap. -/
def Event.ids : Event → List Nat
  | .reserved first count step _ =>
      (List.range (orOne count).toNat).map fun index => first.toNat + index * (orOne step).toNat
  | .noted _ => []

/-- The values later reservations stay above. -/
def Event.values : Event → List Nat
  | .noted value => [value.toNat]
  | reservation => reservation.ids

def Event.OnLadder : Event → Prop
  | .reserved first _ step offsetMod =>
      first = uint64Max ∨ first.toNat % (orOne step).toNat = offsetMod.toNat % (orOne step).toNat
  | .noted _ => True

/-- The table has an entry, and it is past `value`. -/
def Past (name : String) (cursors : Cursors) (value : Nat) : Prop :=
  ∃ next, cursors name = some next ∧ value < next.toNat

variable {name : String} {cursors : Cursors} {event : Event} {start next count step offsetMod : UInt64}
  {value : Nat}

/-- Where the cursor stands after ids reserved from `first` on. -/
def nextAfter (first count step : UInt64) : UInt64 :=
  advanceAfterReservation first (orOne count) (orOne step)

theorem first_le_nextAfter (first count step : UInt64) :
    first.toNat ≤ (nextAfter first count step).toNat := by
  have advanced := advanceAfterReservation_toNat first (orOne_pos count) (orOne_pos step)
  have bound := UInt64.le_iff_toNat_le.mp (le_uint64Max first)
  rw [nextAfter, advanced]
  omega

/-- Short of `UINT64_MAX` the cursor is past every id reserved. -/
theorem id_lt_nextAfter {first : UInt64} (offsetMod : UInt64)
    (reserved : value ∈ (Event.reserved first count step offsetMod).ids)
    (below : value < uint64Max.toNat) : value < (nextAfter first count step).toNat := by
  obtain ⟨index, member, spelled⟩ := List.mem_map.mp reserved
  have within : index * (orOne step).toNat ≤ ((orOne count).toNat - 1) * (orOne step).toNat :=
    Nat.mul_le_mul_right _ (Nat.le_sub_one_of_lt (List.mem_range.mp member))
  have advanced := advanceAfterReservation_toNat first (orOne_pos count) (orOne_pos step)
  rw [nextAfter, advanced]
  omega

theorem first_le_id {first : UInt64}
    (reserved : value ∈ (Event.reserved first count step offsetMod).ids) : first.toNat ≤ value := by
  obtain ⟨index, _, spelled⟩ := List.mem_map.mp reserved
  omega

/-- What one call does: it reserves from where the cursor stands or from
higher up, notes a value, or finds no entry. -/
theorem Call.run_cases (name : String) (cursors : Cursors) (call : Call) :
    (∃ start count step offsetMod,
      (∀ next, cursors name = some next → next.toNat ≤ start.toNat) ∧
        call.run name cursors =
          (some (.reserved (roundUpToModulus start (orOne step) offsetMod) count step offsetMod),
            cursors.set name (nextAfter (roundUpToModulus start (orOne step) offsetMod) count step))) ∨
      (∃ value, call.run name cursors = (some (.noted value), aiNoteExplicit cursors name value)) ∨
      (cursors name = none ∧ call.run name cursors = (none, cursors)) := by
  cases call with
  | reserve count step offsetMod =>
      cases entry : cursors name with
      | none => exact .inr (.inr ⟨rfl, by simp only [Call.run, aiReserve, entry]⟩)
      | some next =>
          refine .inl ⟨next, count, step, offsetMod, ?_, ?_⟩
          · rintro _ ⟨⟩
            exact Nat.le_refl _
          · simp only [Call.run, aiReserve, entry, nextAfter]
  | seedAndReserve seed count step offsetMod =>
      let next := (cursors name).getD 0
      refine .inl ⟨if next < seed then seed else next, count, step, offsetMod, ?_, rfl⟩
      intro entry found
      have same : next = entry := by simp only [next, found, Option.getD_some]
      rw [same]
      split
      · rename_i less
        exact Nat.le_of_lt (UInt64.lt_iff_toNat_lt.mp less)
      · exact Nat.le_refl _
  | noteExplicit value => exact .inr (.inl ⟨value, rfl⟩)

/-- A noted value moves the cursor past it, unless the cursor was. -/
theorem aiNoteExplicit_next (cursors : Cursors) (name : String) {noted : UInt64}
    (counted : noted ≠ uint64Max) :
    ∃ next, aiNoteExplicit cursors name noted name = some next ∧ noted.toNat < next.toNat ∧
      ∀ before, cursors name = some before → before.toNat ≤ next.toNat := by
  simp only [aiNoteExplicit, if_neg counted, Cursors.set_self]
  refine ⟨_, rfl, ?_⟩
  have below : noted.toNat < uint64Max.toNat :=
    Nat.lt_of_le_of_ne (UInt64.le_iff_toNat_le.mp (le_uint64Max noted))
      fun equal => counted (UInt64.toNat_inj.mp equal)
  rw [uint64Max_toNat] at below
  have after : (noted + 1).toNat = noted.toNat + 1 := by
    rw [UInt64.toNat_add, UInt64.toNat_one, Nat.mod_eq_of_lt (by omega)]
  split
  · rename_i behind
    rw [UInt64.le_iff_toNat_le] at behind
    refine ⟨by omega, ?_⟩
    intro before found
    rw [found, Option.getD_some] at behind
    omega
  · rename_i ahead
    rw [UInt64.le_iff_toNat_le] at ahead
    refine ⟨by omega, ?_⟩
    intro before found
    rw [found, Option.getD_some]

/-- No call takes the entry away or moves it down. -/
theorem Call.after_next (call : Call) (entry : cursors name = some next) :
    ∃ later, call.after name cursors name = some later ∧ next.toNat ≤ later.toNat := by
  rcases call.run_cases name cursors with
    ⟨start, count, step, offsetMod, above, ran⟩ | ⟨noted, ran⟩ | ⟨absent, _⟩
  · refine ⟨_, by rw [Call.after, ran]; exact Cursors.set_self .., ?_⟩
    calc next.toNat
      _ ≤ start.toNat := above next entry
      _ ≤ _ := le_roundUpToModulus start offsetMod (orOne_pos step)
      _ ≤ _ := first_le_nextAfter ..
  · rw [Call.after, ran]
    by_cases counted : noted = uint64Max
    · exact ⟨next, by simp only [aiNoteExplicit, if_pos counted, entry], Nat.le_refl _⟩
    · obtain ⟨later, found, _, grown⟩ := aiNoteExplicit_next cursors name counted
      exact ⟨later, found, grown next entry⟩
  · rw [entry] at absent
    cases absent

/-- The run lemma of the entry. -/
theorem after_next (calls : List Call) (entry : cursors name = some next) :
    ∃ later, Runs.after (Call.after name) cursors calls name = some later ∧
      next.toNat ≤ later.toNat := by
  induction calls generalizing cursors next with
  | nil => exact ⟨next, entry, Nat.le_refl _⟩
  | cons call calls ih =>
      obtain ⟨middle, found, grown⟩ := call.after_next entry
      obtain ⟨later, last, more⟩ := ih found
      exact ⟨later, last, Nat.le_trans grown more⟩

theorem Past.after (call : Call) (past : Past name cursors value) :
    Past name (call.after name cursors) value := by
  obtain ⟨next, entry, less⟩ := past
  obtain ⟨later, found, grown⟩ := call.after_next entry
  exact ⟨later, found, Nat.lt_of_lt_of_le less grown⟩

/-- A call leaves the cursor past the values of its event. -/
theorem Call.past_values (call : Call) (happened : (call.run name cursors).1 = some event)
    (member : value ∈ event.values) (below : value < uint64Max.toNat) :
    Past name (call.after name cursors) value := by
  rw [Call.after]
  rcases call.run_cases name cursors with ⟨start, count, step, offsetMod, _, ran⟩ | ⟨noted, ran⟩ | ⟨_, ran⟩
  · rw [ran] at happened ⊢
    cases happened
    exact ⟨_, Cursors.set_self .., id_lt_nextAfter offsetMod member below⟩
  · rw [ran] at happened ⊢
    cases happened
    rw [Event.values, List.mem_singleton] at member
    subst member
    have counted : noted ≠ uint64Max := by
      rintro rfl
      exact Nat.lt_irrefl _ below
    obtain ⟨next, found, less, _⟩ := aiNoteExplicit_next cursors name counted
    exact ⟨next, found, less⟩
  · rw [ran] at happened
    cases happened

/-- What the cursor is past, a reservation starts past. -/
theorem Past.lt_id (call : Call) (past : Past name cursors value)
    (happened : (call.run name cursors).1 = some event) {id : Nat} (member : id ∈ event.ids) :
    value < id := by
  obtain ⟨next, entry, less⟩ := past
  rcases call.run_cases name cursors with
    ⟨start, count, step, offsetMod, above, ran⟩ | ⟨noted, ran⟩ | ⟨_, ran⟩
  · rw [ran] at happened
    cases happened
    calc value
      _ < next.toNat := less
      _ ≤ start.toNat := above next entry
      _ ≤ _ := le_roundUpToModulus start offsetMod (orOne_pos step)
      _ ≤ id := first_le_id member
  · rw [ran] at happened
    cases happened
    cases member
  · rw [ran] at happened
    cases happened

/-- The run lemma of the ids: what the cursor is past, every later reservation
is past. -/
theorem Past.lt_history (past : Past name cursors value) (calls : List Call) :
    ∀ event ∈ history name cursors calls, ∀ id ∈ event.ids, value < id := by
  induction calls generalizing cursors with
  | nil =>
      intro event member
      cases member
  | cons call calls ih =>
      intro event member id reserved
      rcases List.mem_append.mp member with now | later
      · exact past.lt_id call (Option.mem_toList.mp now) reserved
      · exact ih (past.after call) event later id reserved

/-- Of two events the later one's ids are above the earlier one's values. -/
theorem history_pairwise (name : String) (cursors : Cursors) (calls : List Call) :
    (history name cursors calls).Pairwise fun earlier later =>
      ∀ value ∈ earlier.values, value < uint64Max.toNat → ∀ id ∈ later.ids, value < id := by
  induction calls generalizing cursors with
  | nil => exact .nil
  | cons call calls ih =>
      refine List.pairwise_append.mpr ⟨?_, ih _, ?_⟩
      · cases (call.run name cursors).1 with
        | none => exact .nil
        | some event => exact List.pairwise_singleton _ _
      · intro earlier now later member value noted below
        have past := call.past_values (Option.mem_toList.mp now) noted below
        exact past.lt_history calls later member

theorem Call.onLadder (call : Call) (happened : (call.run name cursors).1 = some event) :
    event.OnLadder := by
  rcases call.run_cases name cursors with ⟨start, count, step, offsetMod, _, ran⟩ | ⟨noted, ran⟩ | ⟨_, ran⟩
  · rw [ran] at happened
    cases happened
    obtain ⟨bump, _, residue, rounded⟩ := roundUpToModulus_toNat start offsetMod (orOne_pos step)
    rcases Nat.le_total (start.toNat + bump) uint64Max.toNat with fits | past
    · rw [Nat.min_eq_left fits] at rounded
      exact .inr (by rw [rounded, residue])
    · rw [Nat.min_eq_right past] at rounded
      exact .inl (UInt64.toNat_inj.mp rounded)
  · rw [ran] at happened
    cases happened
    trivial
  · rw [ran] at happened
    cases happened

theorem history_onLadder (name : String) (cursors : Cursors) (calls : List Call) :
    ∀ event ∈ history name cursors calls, event.OnLadder := by
  induction calls generalizing cursors with
  | nil =>
      intro event member
      cases member
  | cons call calls ih =>
      intro event member
      rcases List.mem_append.mp member with now | later
      · exact call.onLadder (Option.mem_toList.mp now)
      · exact ih _ event later

/-- Whatever the order of the calls: the later of two reservations is above
the earlier and above what was noted before it, so no two share an id; each
starts on its ladder; the cursor only moves up. -/
theorem ai_reservations_never_overlap (name : String) (cursors : Cursors) (calls : List Call) :
    ((history name cursors calls).Pairwise fun earlier later =>
      (∀ value ∈ earlier.values, value < uint64Max.toNat → ∀ id ∈ later.ids, value < id) ∧
        ((∀ id ∈ earlier.ids, id < uint64Max.toNat) → earlier.ids.Disjoint later.ids)) ∧
      (∀ event ∈ history name cursors calls, event.OnLadder) ∧
      ∀ next, cursors name = some next →
        ∃ later, Runs.after (Call.after name) cursors calls name = some later ∧
          next.toNat ≤ later.toNat := by
  refine ⟨?_, history_onLadder name cursors calls, fun next => after_next calls⟩
  apply (history_pairwise name cursors calls).imp
  intro earlier later above
  refine ⟨above, ?_⟩
  intro clear id first second
  cases earlier with
  | noted value => cases first
  | reserved start count step offsetMod =>
      exact Nat.lt_irrefl id (above id first (clear id first) id second)

end StoolapMariadb.AutoIncrement
