import Mathlib.Data.List.Basic
import StoolapMariadb.RecordCount
import StoolapMariadb.Lib.Runs

namespace StoolapMariadb.RecordCount

/-! Whose writes a count can hold. A count taken in a transaction lists the
writes that transaction holds, as long as its span lasts. -/

variable {state after : State} {s t : SessionId} {h : HandlerId} {count : Count} {write : Write}

/-- The writes a count lists are those of the span it took them in, or were
committed with it. -/
structure Grounded (state : State) (count : Count) : Prop where
  committed : ∀ write ∈ count.committed, write ∈ state.history
  begun : ∀ span write, (some span, write) ∈ count.taken → span < state.nextSpan
  live : ∀ span write, (some span, write) ∈ count.taken →
    ∀ t, (state.connections t).span = some span → write ∈ (state.connections t).pending
  ended : ∀ span write, (some span, write) ∈ count.taken →
    ∀ t, (span, t) ∈ state.ended → write ∈ state.history ∧ write.session = t

/-- What the engine keeps apart: each session's writes, and those committed
and rolled back. -/
structure EngineConsistent (state : State) : Prop where
  own : ∀ t, ∀ write ∈ (state.connections t).pending, write.session = t ∧ write.serial < state.nextWrite
  unsettled : ∀ t, ∀ write ∈ (state.connections t).pending, write ∉ state.history ∧ write ∉ state.rolledBack
  nodup : ∀ t, (state.connections t).pending.Nodup
  settled : ∀ write ∈ state.history, write.serial < state.nextWrite ∧ write ∉ state.rolledBack
  undone : ∀ write ∈ state.rolledBack, write.serial < state.nextWrite
  spans : ∀ t span, (state.connections t).span = some span → span < state.nextSpan ∧
    (∀ u, (state.connections u).span = some span → u = t) ∧ ∀ u, (span, u) ∉ state.ended
  ended : ∀ span t, (span, t) ∈ state.ended → span < state.nextSpan
  stored : ∀ write ∈ state.committed, write ∈ state.history
  seen : ∀ t rows, (state.connections t).snapshot = some rows → ∀ write ∈ rows, write ∈ state.history

/-- The counts of the caches. -/
structure CachesConsistent (state : State) : Prop where
  cached : ∀ h, Grounded state (state.handlers h).cached
  stats : ∀ h, Grounded state (state.handlers h).stats
  counts : ∀ t count, (state.connections t).counts = some count → Grounded state count
  records : ∀ count, state.records = some count → Grounded state count ∧ count.taken = []

structure Consistent (state : State) : Prop where
  engine : EngineConsistent state
  caches : CachesConsistent state

/-- The engine's part of the state is as it was. -/
structure SameEngine (before after : State) : Prop where
  committed : after.committed = before.committed
  history : after.history = before.history
  rolledBack : after.rolledBack = before.rolledBack
  ended : after.ended = before.ended
  nextSpan : after.nextSpan = before.nextSpan
  nextWrite : after.nextWrite = before.nextWrite
  connection : ∀ t, (after.connections t).hasTx = (before.connections t).hasTx ∧
    (after.connections t).span = (before.connections t).span ∧
    (after.connections t).pending = (before.connections t).pending ∧
    (after.connections t).snapshot = (before.connections t).snapshot

/-- The caches are as they were. -/
structure SameCaches (before after : State) : Prop where
  handlers : after.handlers = before.handlers
  records : after.records = before.records
  counts : ∀ t count, (after.connections t).counts = some count → (before.connections t).counts = some count

section Engine

theorem SameEngine.grounded (same : SameEngine state after) (grounded : Grounded state count) :
    Grounded after count := by
  refine ⟨?_, ?_, fun span write member t isSpan => ?_, ?_⟩
  · rw [same.history]
    exact grounded.committed
  · rw [same.nextSpan]
    exact grounded.begun
  · rw [(same.connection t).2.1] at isSpan
    rw [(same.connection t).2.2.1]
    exact grounded.live span write member t isSpan
  · rw [same.ended, same.history]
    exact grounded.ended

theorem SameEngine.consistent (same : SameEngine state after) (consistent : EngineConsistent state) :
    EngineConsistent after where
  own := fun t => by
    rw [(same.connection t).2.2.1, same.nextWrite]
    exact consistent.own t
  unsettled := fun t => by
    rw [(same.connection t).2.2.1, same.history, same.rolledBack]
    exact consistent.unsettled t
  nodup := fun t => by
    rw [(same.connection t).2.2.1]
    exact consistent.nodup t
  settled := by
    rw [same.history, same.nextWrite, same.rolledBack]
    exact consistent.settled
  undone := by
    rw [same.nextWrite, same.rolledBack]
    exact consistent.undone
  spans := fun t span isSpan => by
    rw [(same.connection t).2.1] at isSpan
    obtain ⟨begun, alone, going⟩ := consistent.spans t span isSpan
    refine ⟨same.nextSpan ▸ begun, fun u isOther => ?_, same.ended ▸ going⟩
    rw [(same.connection u).2.1] at isOther
    exact alone u isOther
  ended := by
    rw [same.ended, same.nextSpan]
    exact consistent.ended
  stored := by
    rw [same.committed, same.history]
    exact consistent.stored
  seen := fun t => by
    rw [(same.connection t).2.2.2, same.history]
    exact consistent.seen t

theorem SameEngine.trans {first second third : State} (one : SameEngine first second)
    (two : SameEngine second third) : SameEngine first third :=
  ⟨two.committed.trans one.committed, two.history.trans one.history, two.rolledBack.trans one.rolledBack,
    two.ended.trans one.ended, two.nextSpan.trans one.nextSpan, two.nextWrite.trans one.nextWrite, fun t =>
      ⟨(two.connection t).1.trans (one.connection t).1, (two.connection t).2.1.trans (one.connection t).2.1,
        (two.connection t).2.2.1.trans (one.connection t).2.2.1,
        (two.connection t).2.2.2.trans (one.connection t).2.2.2⟩⟩

theorem setHandler_sameEngine (state : State) (h : HandlerId) (handler : Handler) :
    SameEngine state (state.setHandler h handler) :=
  ⟨rfl, rfl, rfl, rfl, rfl, rfl, fun _ => ⟨rfl, rfl, rfl, rfl⟩⟩

theorem setCounts_sameEngine (state : State) (s : SessionId) (counts : Option Count) (dirty : Bool) :
    SameEngine state (state.setConnection s { state.connections s with counts, dirty }) := by
  refine ⟨rfl, rfl, rfl, rfl, rfl, rfl, fun t => ?_⟩
  by_cases same : t = s
  · subst same
    simp [State.setConnection]
  · simp [State.setConnection, Function.update_of_ne same]

/-- A change of the engine alone keeps the caches as long as it keeps what a
count says. -/
theorem SameCaches.consistent (same : SameCaches state after) (consistent : CachesConsistent state)
    (keeps : ∀ count, Grounded state count → Grounded after count) : CachesConsistent after where
  cached := fun h => by
    rw [same.handlers]
    exact keeps _ (consistent.cached h)
  stats := fun h => by
    rw [same.handlers]
    exact keeps _ (consistent.stats h)
  counts := fun t count isCount => keeps _ (consistent.counts t count (same.counts t count isCount))
  records := fun count isCount => by
    rw [same.records] at isCount
    obtain ⟨grounded, none⟩ := consistent.records count isCount
    exact ⟨keeps _ grounded, none⟩

end Engine

section Caches

theorem setHandler_consistent (consistent : Consistent state) {handler : Handler}
    (cached : Grounded state handler.cached) (stats : Grounded state handler.stats) :
    Consistent (state.setHandler h handler) := by
  have same := setHandler_sameEngine state h handler
  refine ⟨same.consistent consistent.engine, ?_, ?_, ?_, ?_⟩
  · intro other
    by_cases is : other = h
    · subst is
      simpa [State.setHandler] using same.grounded cached
    · simpa [State.setHandler, Function.update_of_ne is] using same.grounded (consistent.caches.cached other)
  · intro other
    by_cases is : other = h
    · subst is
      simpa [State.setHandler] using same.grounded stats
    · simpa [State.setHandler, Function.update_of_ne is] using same.grounded (consistent.caches.stats other)
  · exact fun t count isCount => same.grounded (consistent.caches.counts t count isCount)
  · intro count isCount
    obtain ⟨grounded, none⟩ := consistent.caches.records count isCount
    exact ⟨same.grounded grounded, none⟩

theorem setCounts_consistent (consistent : Consistent state) {counts : Option Count} (dirty : Bool)
    (grounded : ∀ count, counts = some count → Grounded state count) :
    Consistent (state.setConnection s { state.connections s with counts, dirty }) := by
  have same := setCounts_sameEngine state s counts dirty
  refine ⟨same.consistent consistent.engine, fun h => same.grounded (consistent.caches.cached h),
    fun h => same.grounded (consistent.caches.stats h), fun t count isCount => ?_, fun count isCount => ?_⟩
  · by_cases is : t = s
    · subst is
      refine same.grounded (grounded count ?_)
      simpa [State.setConnection] using isCount
    · refine same.grounded (consistent.caches.counts t count ?_)
      simpa [State.setConnection, Function.update_of_ne is] using isCount
  · obtain ⟨grounded, none⟩ := consistent.caches.records count isCount
    exact ⟨same.grounded grounded, none⟩

theorem known_grounded (state : State) (value : UInt64) : Grounded state (.known value) :=
  ⟨fun _ member => (List.not_mem_nil member).elim, fun _ _ member => (List.not_mem_nil member).elim,
    fun _ _ member => (List.not_mem_nil member).elim, fun _ _ member => (List.not_mem_nil member).elim⟩

theorem setRecords_consistent (consistent : Consistent state) (records : Option Count)
    (empty : ∀ count, records = some count → ∃ value, count = .known value) :
    Consistent { state with records } := by
  have same : SameEngine state { state with records } :=
    ⟨rfl, rfl, rfl, rfl, rfl, rfl, fun _ => ⟨rfl, rfl, rfl, rfl⟩⟩
  refine ⟨same.consistent consistent.engine, fun h => same.grounded (consistent.caches.cached h),
    fun h => same.grounded (consistent.caches.stats h),
    fun t count isCount => same.grounded (consistent.caches.counts t count isCount), fun count isCount => ?_⟩
  obtain ⟨value, rfl⟩ := empty count isCount
  exact ⟨known_grounded _ value, rfl⟩

theorem keep_consistent (consistent : Consistent state) (grounded : Grounded state count) :
    Consistent (state.keep h count) :=
  setHandler_consistent consistent grounded grounded

theorem invalidateDirtyRecords_consistent (consistent : Consistent state) :
    Consistent (state.invalidateDirtyRecords s) := by
  have cleared := setCounts_consistent (s := s) consistent false (consistent.caches.counts s)
  unfold State.invalidateDirtyRecords
  dsimp only
  split
  · exact setRecords_consistent cleared none fun count isCount => by cases isCount
  · exact cleared

end Caches

section Transactions

theorem finish_connection (state : State) (s t : SessionId) (commit : Bool) :
    (state.finish s commit).connections t =
      if t = s then { state.connections s with hasTx := false, span := none, pending := [], snapshot := none }
      else state.connections t := by
  unfold State.finish
  cases commit <;> by_cases same : t = s <;> simp [State.setConnection, same, Function.update_of_ne]

theorem finish_sameCaches (state : State) (s : SessionId) (commit : Bool) :
    SameCaches state (state.finish s commit) := by
  refine ⟨by cases commit <;> rfl, by cases commit <;> rfl, fun t count isCount => ?_⟩
  rw [finish_connection] at isCount
  split at isCount
  · rename_i same
    rw [same]
    exact isCount
  · exact isCount

theorem mem_history_finish (state : State) (s : SessionId) (commit : Bool) (write : Write) :
    write ∈ (state.finish s commit).history ↔
      write ∈ state.history ∨ commit = true ∧ write ∈ (state.connections s).pending := by
  cases commit <;> simp [State.finish, State.setConnection]

theorem mem_rolledBack_finish (state : State) (s : SessionId) (commit : Bool) (write : Write) :
    write ∈ (state.finish s commit).rolledBack ↔
      write ∈ state.rolledBack ∨ commit = false ∧ write ∈ (state.connections s).pending := by
  cases commit <;> simp [State.finish, State.setConnection]

theorem mem_ended_finish (state : State) (s : SessionId) (commit : Bool) (span : Span) (t : SessionId) :
    (span, t) ∈ (state.finish s commit).ended ↔
      (span, t) ∈ state.ended ∨ commit = true ∧ t = s ∧ (state.connections s).span = some span := by
  cases commit
  · simp [State.finish, State.setConnection]
  · simp only [State.finish, if_true, List.mem_append, List.mem_map, Option.mem_toList, true_and]
    constructor
    · rintro (⟨other, isSpan, same⟩ | old)
      · cases same
        exact .inr ⟨rfl, isSpan⟩
      · exact .inl old
    · rintro (old | ⟨rfl, isSpan⟩)
      · exact .inr old
      · exact .inl ⟨span, isSpan, rfl⟩

theorem finish_same (state : State) (s : SessionId) (commit : Bool) :
    (state.finish s commit).nextSpan = state.nextSpan ∧ (state.finish s commit).nextWrite = state.nextWrite := by
  cases commit <;> exact ⟨rfl, rfl⟩

/-- A session's own writes are gone from its transaction, others' are as they
were. -/
theorem mem_pending_finish {commit : Bool} (member : write ∈ ((state.finish s commit).connections t).pending) :
    t ≠ s ∧ write ∈ (state.connections t).pending := by
  rw [finish_connection] at member
  split at member
  · cases member
  · rename_i other
    exact ⟨other, member⟩

theorem span_finish {commit : Bool} {span : Span}
    (isSpan : ((state.finish s commit).connections t).span = some span) :
    t ≠ s ∧ (state.connections t).span = some span := by
  rw [finish_connection] at isSpan
  split at isSpan
  · cases isSpan
  · rename_i other
    exact ⟨other, isSpan⟩

theorem finish_engine (consistent : EngineConsistent state) (s : SessionId) (commit : Bool) :
    EngineConsistent (state.finish s commit) := by
  obtain ⟨sameSpan, sameWrite⟩ := finish_same state s commit
  -- A write another session holds is none of those that end.
  have apart {t : SessionId} {write : Write} (other : t ≠ s) (member : write ∈ (state.connections t).pending)
      (ends : write ∈ (state.connections s).pending) : False :=
    other ((consistent.own t write member).1.symm.trans (consistent.own s write ends).1)
  constructor
  case own =>
    intro t write member
    rw [sameWrite]
    exact consistent.own t write (mem_pending_finish member).2
  case unsettled =>
    intro t write member
    obtain ⟨other, held⟩ := mem_pending_finish member
    obtain ⟨notCommitted, notUndone⟩ := consistent.unsettled t write held
    rw [mem_history_finish, mem_rolledBack_finish]
    exact ⟨fun ends => ends.elim notCommitted fun ends => apart other held ends.2,
      fun ends => ends.elim notUndone fun ends => apart other held ends.2⟩
  case nodup =>
    intro t
    rw [finish_connection]
    split
    · exact List.nodup_nil
    · exact consistent.nodup t
  case settled =>
    intro write member
    rw [sameWrite, mem_rolledBack_finish]
    rcases (mem_history_finish _ _ _ _).mp member with old | ⟨commits, held⟩
    · obtain ⟨begun, notUndone⟩ := consistent.settled write old
      exact ⟨begun, fun undone => undone.elim notUndone fun undone =>
        (consistent.unsettled s write undone.2).1 old⟩
    · refine ⟨(consistent.own s write held).2, fun undone => ?_⟩
      rcases undone with undone | ⟨drops, -⟩
      · exact (consistent.unsettled s write held).2 undone
      · rw [commits] at drops
        cases drops
  case undone =>
    intro write member
    rw [sameWrite]
    rcases (mem_rolledBack_finish _ _ _ _).mp member with old | ⟨-, held⟩
    · exact consistent.undone write old
    · exact (consistent.own s write held).2
  case spans =>
    intro t span isSpan
    obtain ⟨other, isSpan⟩ := span_finish isSpan
    obtain ⟨begun, alone, going⟩ := consistent.spans t span isSpan
    refine ⟨sameSpan ▸ begun, fun u isOther => alone u (span_finish isOther).2, fun u member => ?_⟩
    rcases (mem_ended_finish _ _ _ _ _).mp member with old | ⟨-, -, own⟩
    · exact going u old
    · exact other (alone s own).symm
  case ended =>
    intro span t member
    rw [sameSpan]
    rcases (mem_ended_finish _ _ _ _ _).mp member with old | ⟨-, -, own⟩
    · exact consistent.ended span t old
    · exact (consistent.spans s span own).1
  case stored =>
    intro write member
    rw [mem_history_finish]
    cases commit with
    | false => exact .inl (consistent.stored write member)
    | true =>
        rcases List.mem_append.mp member with old | held
        · exact .inl (consistent.stored write old)
        · exact .inr ⟨rfl, held⟩
  case seen =>
    intro t rows isSnapshot write member
    rw [mem_history_finish]
    rw [finish_connection] at isSnapshot
    split at isSnapshot
    · cases isSnapshot
    · exact .inl (consistent.seen t rows isSnapshot write member)

theorem finish_grounded (consistent : EngineConsistent state) (s : SessionId) (commit : Bool)
    (grounded : Grounded state count) : Grounded (state.finish s commit) count := by
  constructor
  case committed => exact fun write member => (mem_history_finish _ _ _ _).mpr (.inl (grounded.committed write member))
  case begun =>
    intro span write member
    rw [(finish_same state s commit).1]
    exact grounded.begun span write member
  case live =>
    intro span write member t isSpan
    obtain ⟨other, isSpan⟩ := span_finish isSpan
    rw [finish_connection, if_neg other]
    exact grounded.live span write member t isSpan
  case ended =>
    intro span write member t isEnded
    rw [mem_history_finish]
    rcases (mem_ended_finish _ _ _ _ _).mp isEnded with old | ⟨commits, rfl, isSpan⟩
    · obtain ⟨settled, own⟩ := grounded.ended span write member t old
      exact ⟨.inl settled, own⟩
    · have held := grounded.live span write member t isSpan
      exact ⟨.inr ⟨commits, held⟩, (consistent.own t write held).1⟩

theorem finish_consistent (consistent : Consistent state) (s : SessionId) (commit : Bool) :
    Consistent (state.finish s commit) :=
  ⟨finish_engine consistent.engine s commit,
    (finish_sameCaches state s commit).consistent consistent.caches fun _ grounded =>
      finish_grounded consistent.engine s commit grounded⟩

theorem opened_connection (state : State) (s t : SessionId) (connection : Connection) :
    (state.opened s connection).connections t =
      if t = s then { connection with span := some state.nextSpan } else state.connections t := by
  by_cases same : t = s <;> simp [State.opened, State.setConnection, same, Function.update_of_ne]

theorem opened_engine (consistent : EngineConsistent state) {connection : Connection}
    (kept : connection.pending.Sublist (state.connections s).pending)
    (seen : ∀ rows, connection.snapshot = some rows → ∀ write ∈ rows, write ∈ state.history) :
    EngineConsistent (state.opened s connection) := by
  have held {t : SessionId} {write : Write} (member : write ∈ ((state.opened s connection).connections t).pending) :
      write ∈ (state.connections t).pending := by
    rw [opened_connection] at member
    split at member
    · rename_i same
      exact same ▸ kept.subset member
    · exact member
  have older {t : SessionId} {span : Span}
      (isSpan : ((state.opened s connection).connections t).span = some span) :
      t = s ∧ span = state.nextSpan ∨ t ≠ s ∧ (state.connections t).span = some span := by
    rw [opened_connection] at isSpan
    split at isSpan
    · rename_i same
      cases isSpan
      exact .inl ⟨same, rfl⟩
    · rename_i other
      exact .inr ⟨other, isSpan⟩
  refine { consistent with own := ?_, unsettled := ?_, nodup := ?_, spans := ?_, ended := ?_, seen := ?_ }
  · exact fun t write member => consistent.own t write (held member)
  · exact fun t write member => consistent.unsettled t write (held member)
  · intro t
    rw [opened_connection]
    split
    · exact (consistent.nodup s).sublist kept
    · exact consistent.nodup t
  · intro t span isSpan
    rcases older isSpan with ⟨rfl, rfl⟩ | ⟨other, isSpan⟩
    · refine ⟨Nat.lt_succ_self _, fun u isOther => ?_, fun u member => ?_⟩
      · rcases older isOther with ⟨same, -⟩ | ⟨-, isOther⟩
        · exact same
        · exact absurd (consistent.spans u _ isOther).1 (Nat.lt_irrefl _)
      · exact Nat.lt_irrefl _ (consistent.ended _ u member)
    · obtain ⟨begun, alone, going⟩ := consistent.spans t span isSpan
      refine ⟨Nat.lt_succ_of_lt begun, fun u isOther => ?_, going⟩
      rcases older isOther with ⟨-, rfl⟩ | ⟨-, isOther⟩
      · exact absurd begun (Nat.lt_irrefl _)
      · exact alone u isOther
  · exact fun span t member => Nat.lt_succ_of_lt (consistent.ended span t member)
  · intro t rows isSnapshot
    rw [opened_connection] at isSnapshot
    split at isSnapshot
    · exact seen rows isSnapshot
    · exact consistent.seen t rows isSnapshot

/-- No count lists a write in a span not begun yet. -/
theorem opened_grounded (grounded : Grounded state count) (connection : Connection) :
    Grounded (state.opened s connection) count := by
  refine { grounded with begun := ?_, live := ?_ }
  · exact fun span write member => Nat.lt_succ_of_lt (grounded.begun span write member)
  · intro span write member t isSpan
    rw [opened_connection] at isSpan ⊢
    split at isSpan
    · cases isSpan
      exact absurd (grounded.begun _ write member) (Nat.lt_irrefl _)
    · rename_i other
      rw [if_neg other]
      exact grounded.live span write member t isSpan

theorem opened_consistent (consistent : Consistent state) {connection : Connection}
    (kept : connection.pending.Sublist (state.connections s).pending)
    (seen : ∀ rows, connection.snapshot = some rows → ∀ write ∈ rows, write ∈ state.history)
    (counts : ∀ count, connection.counts = some count → (state.connections s).counts = some count) :
    Consistent (state.opened s connection) := by
  refine ⟨opened_engine consistent.engine kept seen, ?_⟩
  have same : SameCaches state (state.opened s connection) := by
    refine ⟨rfl, rfl, fun t count isCount => ?_⟩
    rw [opened_connection] at isCount
    split at isCount
    · rename_i is
      exact is ▸ counts count isCount
    · exact isCount
  exact same.consistent consistent.caches fun _ grounded => opened_grounded grounded connection

theorem endStatement_consistent (consistent : Consistent state) (s : SessionId) (commit fault : Bool) :
    Consistent (state.endStatement s commit fault).2 := by
  unfold State.endStatement
  split
  · exact consistent
  · exact finish_consistent consistent s _

theorem begin_consistent (consistent : Consistent state) (s : SessionId) (snapshot endFault beginFault : Bool) :
    Consistent (state.begin s snapshot endFault beginFault).2 := by
  unfold State.begin
  split
  · exact consistent
  · have ended := endStatement_consistent consistent s true endFault
    split
    · rename_i ran
      rw [ran] at ended
      exact ended
    · rename_i next ran
      rw [ran] at ended
      split
      · exact ended
      · refine opened_consistent ended (List.Sublist.refl _) (fun rows isSnapshot write member => ?_) ?_
        dsimp only at isSnapshot
        split at isSnapshot
        · cases isSnapshot
          exact ended.engine.stored write member
        · cases isSnapshot
        · exact fun count isCount => by cases isCount

theorem endTx_consistent (consistent : Consistent state) (s : SessionId) (commit : Bool) :
    Consistent (state.endTx s commit) := by
  unfold State.endTx
  split
  · have ended := invalidateDirtyRecords_consistent (s := s) (finish_consistent consistent s commit)
    exact setCounts_consistent ended _ fun count isCount => by cases isCount
  · exact consistent

theorem endCallback_consistent (consistent : Consistent state) (s : SessionId) (commit real fault : Bool) :
    Consistent (state.endCallback s commit real fault) := by
  have ended := endStatement_consistent consistent s commit fault
  unfold State.endCallback
  split
  · rename_i ran
    rw [ran] at ended
    split
    · exact ended
    · split
      · exact endTx_consistent ended s false
      · exact ended
  · rename_i ran
    rw [ran] at ended
    split
    · exact endTx_consistent ended s _
    · exact ended

theorem undo_consistent (consistent : Consistent state) {undone : List Write}
    (own : ∀ write ∈ undone, write.serial < state.nextWrite ∧ write ∉ state.history ∧
      ∀ t, write ∉ (state.connections t).pending) :
    Consistent { state with rolledBack := state.rolledBack ++ undone } := by
  refine ⟨{ consistent.engine with unsettled := ?_, settled := ?_, undone := ?_ }, ?_⟩
  · intro t write member
    obtain ⟨notCommitted, notUndone⟩ := consistent.engine.unsettled t write member
    refine ⟨notCommitted, fun ends => ?_⟩
    rcases List.mem_append.mp ends with old | new
    · exact notUndone old
    · exact (own write new).2.2 t member
  · intro write member
    obtain ⟨begun, notUndone⟩ := consistent.engine.settled write member
    refine ⟨begun, fun ends => ?_⟩
    rcases List.mem_append.mp ends with old | new
    · exact notUndone old
    · exact (own write new).2.1 member
  · intro write member
    rcases List.mem_append.mp member with old | new
    · exact consistent.engine.undone write old
    · exact (own write new).1
  · have same : SameCaches state { state with rolledBack := state.rolledBack ++ undone } :=
      ⟨rfl, rfl, fun _ _ isCount => isCount⟩
    exact same.consistent consistent.caches fun count grounded => { grounded with }

theorem rollbackTo_consistent (consistent : Consistent state) (s : SessionId) (keep : Nat) (fault : Bool) :
    Consistent (state.rollbackTo s keep fault) := by
  unfold State.rollbackTo
  dsimp only
  split
  · exact consistent
  · refine invalidateDirtyRecords_consistent (undo_consistent ?_ ?_)
    · exact opened_consistent consistent (List.take_sublist _ _) (consistent.engine.seen s) fun _ isCount => isCount
    · intro write member
      have held := List.mem_of_mem_drop member
      refine ⟨(consistent.engine.own s write held).2, (consistent.engine.unsettled s write held).1, fun t still => ?_⟩
      rw [opened_connection] at still
      split at still
      · exact List.disjoint_take_drop (consistent.engine.nodup s) (Nat.le_refl keep) still member
      · rename_i other
        exact other ((consistent.engine.own t write still).1.symm.trans (consistent.engine.own s write held).1)

/-- A write has a serial number of its own. -/
theorem EngineConsistent.fresh (consistent : EngineConsistent state) (new : write.serial = state.nextWrite) :
    write ∉ state.history ∧ write ∉ state.rolledBack ∧ ∀ t, write ∉ (state.connections t).pending := by
  refine ⟨fun member => ?_, fun member => ?_, fun t member => ?_⟩
  · exact Nat.lt_irrefl _ (new ▸ (consistent.settled write member).1)
  · exact Nat.lt_irrefl _ (new ▸ consistent.undone write member)
  · exact Nat.lt_irrefl _ (new ▸ (consistent.own t write member).2)

theorem hold_connection (state : State) (write : Write) (t : SessionId) :
    (state.hold write).connections t =
      if t = write.session then
        { state.connections t with
          pending := (state.connections t).pending ++ [write]
          span := some ((state.connections t).span.getD state.nextSpan) }
      else state.connections t := by
  by_cases same : t = write.session
  · subst same
    simp [State.hold, State.setConnection]
  · simp [State.hold, State.setConnection, same, Function.update_of_ne]

theorem mem_pending_hold {other : Write} (member : other ∈ ((state.hold write).connections t).pending) :
    other ∈ (state.connections t).pending ∨ t = write.session ∧ other = write := by
  rw [hold_connection] at member
  split at member
  · rename_i same
    rcases List.mem_append.mp member with old | new
    · exact .inl old
    · exact .inr ⟨same, List.mem_singleton.mp new⟩
  · exact .inl member

/-- The span is the transaction's, or a new one. -/
theorem span_hold {span : Span} (isSpan : ((state.hold write).connections t).span = some span) :
    (state.connections t).span = some span ∨ t = write.session ∧ span = state.nextSpan := by
  rw [hold_connection] at isSpan
  split at isSpan
  · rename_i same
    cases had : (state.connections t).span with
    | some old =>
        simp only [had, Option.getD_some, Option.some.injEq] at isSpan
        exact .inl (congrArg some isSpan)
    | none =>
        simp only [had, Option.getD_none, Option.some.injEq] at isSpan
        exact .inr ⟨same, isSpan.symm⟩
  · exact .inl isSpan

theorem hold_engine (consistent : EngineConsistent state) (new : write.serial = state.nextWrite) :
    EngineConsistent (state.hold write) := by
  obtain ⟨notCommitted, notUndone, notHeld⟩ := consistent.fresh new
  constructor
  case own =>
    intro t other member
    rcases mem_pending_hold member with old | ⟨same, rfl⟩
    · obtain ⟨own, begun⟩ := consistent.own t other old
      exact ⟨own, Nat.lt_succ_of_lt begun⟩
    · exact ⟨same.symm, new ▸ Nat.lt_succ_self _⟩
  case unsettled =>
    intro t other member
    rcases mem_pending_hold member with old | ⟨-, rfl⟩
    · exact consistent.unsettled t other old
    · exact ⟨notCommitted, notUndone⟩
  case nodup =>
    intro t
    rw [hold_connection]
    split
    · rw [List.nodup_append]
      refine ⟨consistent.nodup t, List.pairwise_singleton _ _, fun other held last isLast same => ?_⟩
      rw [List.mem_singleton] at isLast
      exact notHeld t (isLast ▸ same ▸ held)
    · exact consistent.nodup t
  case settled =>
    intro other member
    obtain ⟨begun, stillNot⟩ := consistent.settled other member
    exact ⟨Nat.lt_succ_of_lt begun, stillNot⟩
  case undone => exact fun other member => Nat.lt_succ_of_lt (consistent.undone other member)
  case spans =>
    intro t span isSpan
    rcases span_hold isSpan with old | ⟨rfl, rfl⟩
    · obtain ⟨begun, alone, going⟩ := consistent.spans t span old
      refine ⟨Nat.lt_succ_of_lt begun, fun u isOther => ?_, going⟩
      rcases span_hold isOther with isOther | ⟨-, rfl⟩
      · exact alone u isOther
      · exact absurd begun (Nat.lt_irrefl _)
    · refine ⟨Nat.lt_succ_self _, fun u isOther => ?_, fun u member => ?_⟩
      · rcases span_hold isOther with isOther | ⟨same, -⟩
        · exact absurd (consistent.spans u _ isOther).1 (Nat.lt_irrefl _)
        · exact same
      · exact Nat.lt_irrefl _ (consistent.ended _ u member)
  case ended => exact fun span t member => Nat.lt_succ_of_lt (consistent.ended span t member)
  case stored => exact consistent.stored
  case seen =>
    intro t rows isSnapshot
    rw [hold_connection] at isSnapshot
    split at isSnapshot
    · exact consistent.seen t rows isSnapshot
    · exact consistent.seen t rows isSnapshot

theorem hold_grounded (grounded : Grounded state count) (write : Write) :
    Grounded (state.hold write) count := by
  refine { grounded with begun := ?_, live := ?_ }
  · exact fun span other member => Nat.lt_succ_of_lt (grounded.begun span other member)
  · intro span other member t isSpan
    rcases span_hold isSpan with old | ⟨-, rfl⟩
    · have held := grounded.live span other member t old
      rw [hold_connection]
      split
      · exact List.mem_append_left _ held
      · exact held
    · exact absurd (grounded.begun _ other member) (Nat.lt_irrefl _)

theorem hold_consistent (consistent : Consistent state) (new : write.serial = state.nextWrite) :
    Consistent (state.hold write) := by
  refine ⟨hold_engine consistent.engine new, ?_⟩
  have same : SameCaches state (state.hold write) := by
    refine ⟨rfl, rfl, fun t count isCount => ?_⟩
    rw [hold_connection] at isCount
    split at isCount
    · exact isCount
    · exact isCount
  exact same.consistent consistent.caches fun _ grounded => hold_grounded grounded write

/-- A write made durable at once. -/
theorem storeAtOnce_consistent (consistent : Consistent state) (new : write.serial = state.nextWrite) :
    Consistent
      { state with
        committed := state.committed ++ [write]
        history := state.history ++ [write]
        nextWrite := state.nextWrite + 1 } := by
  obtain ⟨-, notUndone, notHeld⟩ := consistent.engine.fresh new
  have longer {other : Write} (member : other ∈ state.history) : other ∈ state.history ++ [write] :=
    List.mem_append_left _ member
  refine ⟨{ consistent.engine with
    own := ?_, unsettled := ?_, settled := ?_, undone := ?_, stored := ?_, seen := ?_ }, ?_⟩
  · intro t other member
    obtain ⟨own, begun⟩ := consistent.engine.own t other member
    exact ⟨own, Nat.lt_succ_of_lt begun⟩
  · intro t other member
    obtain ⟨notCommitted, stillNot⟩ := consistent.engine.unsettled t other member
    refine ⟨fun ends => ?_, stillNot⟩
    rcases List.mem_append.mp ends with old | new
    · exact notCommitted old
    · exact notHeld t (List.mem_singleton.mp new ▸ member)
  · intro other member
    rcases List.mem_append.mp member with old | new'
    · obtain ⟨begun, stillNot⟩ := consistent.engine.settled other old
      exact ⟨Nat.lt_succ_of_lt begun, stillNot⟩
    · rw [List.mem_singleton.mp new', new]
      exact ⟨Nat.lt_succ_self _, notUndone⟩
  · exact fun other member => Nat.lt_succ_of_lt (consistent.engine.undone other member)
  · intro other member
    rcases List.mem_append.mp member with old | new
    · exact longer (consistent.engine.stored other old)
    · exact List.mem_append_right _ new
  · exact fun t rows isSnapshot other member => longer (consistent.engine.seen t rows isSnapshot other member)
  · have same : SameCaches state
        { state with
          committed := state.committed ++ [write]
          history := state.history ++ [write]
          nextWrite := state.nextWrite + 1 } := ⟨rfl, rfl, fun _ _ isCount => isCount⟩
    refine same.consistent consistent.caches fun count grounded => { grounded with committed := ?_, ended := ?_ }
    · exact fun other member => longer (grounded.committed other member)
    · intro span other member t isEnded
      obtain ⟨settled, own⟩ := grounded.ended span other member t isEnded
      exact ⟨longer settled, own⟩

theorem store_consistent (consistent : Consistent state) (new : write.serial = state.nextWrite) (atOnce : Bool) :
    Consistent (state.store write atOnce) := by
  unfold State.store
  dsimp only
  split
  · exact storeAtOnce_consistent consistent new
  · exact hold_consistent consistent new

/-- In an open transaction the write is one it holds. -/
theorem mem_store (state : State) (write : Write) (atOnce : Bool)
    (isOpen : ((state.store write atOnce).connections write.session).hasTx = true) :
    write ∈ ((state.store write atOnce).connections write.session).pending := by
  unfold State.store at isOpen ⊢
  dsimp only at isOpen ⊢
  split at isOpen
  · rename_i outside
    rw [isOpen] at outside
    simp at outside
  · rename_i held
    rw [if_neg held, hold_connection, if_pos rfl]
    exact List.mem_append_right _ (List.mem_singleton.mpr rfl)

end Transactions

section Counts

/-- A count that adds to a grounded one only writes the session's transaction
holds now. -/
theorem grounded_of_held (consistent : EngineConsistent state)
    (committed : ∀ write ∈ count.committed, write ∈ state.history)
    (held : ∀ span write, (some span, write) ∈ count.taken →
      (state.connections s).span = some span ∧ write ∈ (state.connections s).pending) :
    Grounded state count := by
  refine ⟨committed, fun span write member => ?_, fun span write member t isSpan => ?_,
    fun span write member t isEnded => ?_⟩
  · exact (consistent.spans s span (held span write member).1).1
  · obtain ⟨own, pending⟩ := held span write member
    rw [(consistent.spans s span own).2.1 t isSpan]
    exact pending
  · exact absurd isEnded ((consistent.spans s span (held span write member).1).2.2 t)

/-- COUNT(*) counts what the session's transaction holds now. -/
theorem live_grounded (consistent : EngineConsistent state) (s : SessionId) :
    Grounded state (.live ((state.connections s).snapshot.getD state.committed) (state.connections s).span
      (state.connections s).pending) := by
  refine grounded_of_held (s := s) consistent (fun write member => ?_) fun span write member => ?_
  · cases isSnapshot : (state.connections s).snapshot with
    | none =>
        rw [Count.committed, isSnapshot] at member
        exact consistent.stored write member
    | some rows =>
        rw [Count.committed, isSnapshot] at member
        exact consistent.seen s rows isSnapshot write member
  · obtain ⟨other, pending, same⟩ := List.mem_map.mp member
    rw [Prod.mk.injEq] at same
    exact ⟨same.1, same.2 ▸ pending⟩

theorem adjust_eq {span : Option Span} {adjusted : Count} (ran : count.adjust span write = some adjusted) :
    adjusted = .adjusted count span write := by
  obtain ⟨_, _, same⟩ := Option.map_eq_some_iff.mp ran
  exact same.symm

theorem adjust_grounded (consistent : EngineConsistent state) (grounded : Grounded state count)
    (held : write ∈ (state.connections s).pending) {adjusted : Count}
    (ran : count.adjust (state.connections s).span write = some adjusted) : Grounded state adjusted := by
  rw [adjust_eq ran]
  have now : Grounded state (.live [] (state.connections s).span [write]) := by
    refine grounded_of_held (s := s) consistent (fun _ member => by cases member) fun span other member => ?_
    obtain ⟨one, only, same⟩ := List.mem_map.mp member
    rw [Prod.mk.injEq] at same
    exact ⟨same.1, same.2 ▸ (List.mem_singleton.mp only ▸ held)⟩
  have either {entry : Option Span × Write}
      (member : entry ∈ (Count.adjusted count (state.connections s).span write).taken) :
      entry ∈ count.taken ∨ entry ∈ (Count.live [] (state.connections s).span [write]).taken :=
    List.mem_append.mp member
  refine ⟨grounded.committed, fun span other member => ?_, fun span other member => ?_,
    fun span other member => ?_⟩
  · exact (either member).elim (grounded.begun span other) (now.begun span other)
  · exact (either member).elim (grounded.live span other) (now.live span other)
  · exact (either member).elim (grounded.ended span other) (now.ended span other)

theorem adjustRecordsCache_consistent (consistent : Consistent state) (s : SessionId) (h : HandlerId)
    (held : (state.connections s).hasTx = true → write ∈ (state.connections s).pending) :
    Consistent (state.adjustRecordsCache s h write) := by
  have stale (h : HandlerId) : Consistent (state.setHandler h { state.handlers h with cachedValid := false }) :=
    setHandler_consistent consistent (consistent.caches.cached h) (consistent.caches.stats h)
  unfold State.adjustRecordsCache
  dsimp only
  split
  · rename_i isOpen
    have adjusted (count : Count)
        (isCount : ((state.connections s).counts.bind fun count =>
          if write.delta = 0 then some count else count.adjust (state.connections s).span write) = some count) :
        Grounded state count := by
      obtain ⟨old, had, becomes⟩ := Option.bind_eq_some_iff.mp isCount
      have grounded := consistent.caches.counts s old had
      split at becomes
      · cases becomes
        exact grounded
      · exact adjust_grounded consistent.engine grounded (held isOpen) becomes
    split
    · split
      · exact setCounts_consistent (s := s) (stale h) true fun count isCount => nomatch isCount
      · rename_i count ran
        have grounded := adjust_grounded consistent.engine (consistent.caches.cached h) (held isOpen) ran
        have same := setHandler_sameEngine state h { state.handlers h with cached := count, stats := count }
        exact setCounts_consistent (s := s) (setHandler_consistent consistent grounded grounded) true
          fun count isCount => same.grounded (adjusted count isCount)
    · exact setCounts_consistent consistent true adjusted
  · exact setRecords_consistent (stale h) none fun count isCount => nomatch isCount

theorem write_consistent (consistent : Consistent state) (s : SessionId) (h : HandlerId) (delta : Int64)
    (atOnce : Bool) : Consistent (state.write s h delta atOnce) :=
  adjustRecordsCache_consistent (store_consistent consistent rfl atOnce) s h (mem_store state _ atOnce)

theorem invalidateRecordsCache_consistent (consistent : Consistent state) (s : SessionId) (h : HandlerId) :
    Consistent (state.invalidateRecordsCache s h) := by
  have stale : Consistent (state.setHandler h { state.handlers h with cachedValid := false }) :=
    setHandler_consistent consistent (consistent.caches.cached h) (consistent.caches.stats h)
  unfold State.invalidateRecordsCache
  dsimp only
  split
  · exact setCounts_consistent (s := s) stale true fun count isCount => nomatch isCount
  · exact setRecords_consistent stale none fun count isCount => nomatch isCount

theorem truncate_consistent (consistent : Consistent state) (h : HandlerId) :
    Consistent (state.truncate h) := by
  have kept := setRecords_consistent (keep_consistent (h := h) consistent (known_grounded state 0))
    (some (.known 0)) fun count isCount => ⟨0, (Option.some.inj isCount).symm⟩
  refine ⟨{ kept.engine with stored := fun write member => by cases member }, ?_⟩
  have same : SameCaches { state.keep h (.known 0) with records := some (.known 0) } (state.truncate h) :=
    ⟨rfl, rfl, fun _ _ isCount => isCount⟩
  exact same.consistent kept.caches fun count grounded => { grounded with }

theorem shared_grounded (consistent : Consistent state) (isCount : state.shared s = some count) :
    Grounded state count := by
  unfold State.shared at isCount
  split at isCount
  · exact consistent.caches.counts s count isCount
  · exact (consistent.caches.records count isCount).1

theorem countRows_consistent (consistent : Consistent state) (s : SessionId) (h : HandlerId) :
    Consistent (state.countRows s h).2 := by
  have grounded := live_grounded consistent.engine s
  have kept := keep_consistent (h := h) consistent grounded
  have same := setHandler_sameEngine state h
  unfold State.countRows
  dsimp only
  split
  · exact setCounts_consistent (s := s) kept _ fun count isCount =>
      (same _).grounded (Option.some.inj isCount ▸ grounded)
  · exact kept

theorem registerTrx_consistent (consistent : Consistent state) (s : SessionId) (explicit snapshot : Bool)
    (faults : Faults) : Consistent (state.registerTrx s explicit snapshot faults).2 := by
  unfold State.registerTrx
  split
  · exact begin_consistent consistent s snapshot _ _
  · exact consistent

theorem cachedRecords_consistent (consistent : Consistent state) (s : SessionId) (h : HandlerId)
    (explicit snapshot : Bool) (faults : Faults) :
    Consistent (state.cachedRecords s h explicit snapshot faults).2 := by
  have registered := registerTrx_consistent consistent s explicit snapshot faults
  unfold State.cachedRecords
  split
  · exact consistent
  · split
    · rename_i ran
      rw [ran] at registered
      exact registered
    · rename_i ran
      rw [ran] at registered
      split
      · rename_i isCount
        exact keep_consistent registered (shared_grounded registered isCount)
      · split
        · exact registered
        · exact countRows_consistent registered s h

theorem refreshed_consistent (consistent : Consistent state) (s : SessionId) (h : HandlerId) :
    Consistent (state.refreshed s h) := by
  unfold State.refreshed
  split
  · exact setHandler_consistent consistent (consistent.caches.cached h) (consistent.caches.cached h)
  · split
    · rename_i isCount
      exact keep_consistent consistent (shared_grounded consistent isCount)
    · exact consistent

theorem info_consistent (consistent : Consistent state) (s : SessionId) (h : HandlerId) :
    Consistent (state.info s h) := by
  have refreshed := refreshed_consistent consistent s h
  unfold State.info
  dsimp only
  split
  · exact setHandler_consistent refreshed (refreshed.caches.cached h) (known_grounded _ 1000)
  · exact refreshed

theorem disconnect_consistent (consistent : Consistent state) (s : SessionId) :
    Consistent (state.disconnect s) := by
  have ended := invalidateDirtyRecords_consistent (s := s) (finish_consistent consistent s false)
  have empty : newConnection =
      { ((state.finish s false).invalidateDirtyRecords s).connections s with counts := none, dirty := false } := by
    unfold State.invalidateDirtyRecords
    dsimp only
    split <;> simp [State.setConnection, finish_connection, newConnection]
  rw [State.disconnect, empty]
  exact setCounts_consistent ended false fun count isCount => nomatch isCount

theorem step_consistent (consistent : Consistent state) (op : Op) : Consistent (step state op) := by
  cases op with
  | begin s snapshot endFault beginFault => exact begin_consistent consistent s snapshot endFault beginFault
  | write s h delta atOnce => exact write_consistent consistent s h delta atOnce
  | writeFailed s h => exact invalidateRecordsCache_consistent consistent s h
  | count s h explicit snapshot faults => exact cachedRecords_consistent consistent s h explicit snapshot faults
  | info s h => exact info_consistent consistent s h
  | endTx s commit real fault => exact endCallback_consistent consistent s commit real fault
  | rollbackTo s keep fault => exact rollbackTo_consistent consistent s keep fault
  | truncate h => exact truncate_consistent consistent h
  | reset h => exact consistent
  | reopen h => exact setHandler_consistent consistent (known_grounded state 0) (known_grounded state 0)
  | disconnect s => exact disconnect_consistent consistent s

end Counts

section Leaks

/-- The count holds no write that was rolled back, and none of another
session's that was not committed when it was counted. -/
structure OwnRows (state : State) (s : SessionId) (count : Count) : Prop where
  settled : ∀ write ∈ count.committed, write ∈ state.history ∧ write ∉ state.rolledBack
  own : ∀ entry ∈ count.taken, entry.2.session = s ∧ entry.2 ∉ state.rolledBack

/-- The transaction is the session's: the one it has open, with no rollback to
a savepoint since, or one it committed. -/
def ownSpan (state : State) (s : SessionId) : Option Span → Bool
  | none => false
  | some span => (state.connections s).span = some span || state.ended.contains (span, s)

def keptInOwn (state : State) (s : SessionId) (count : Count) : Bool :=
  count.taken.all fun entry => ownSpan state s entry.1

/-- What `cached_records` answers with is the handler's own count, its
`stats.records` after an error, or the transaction's; it was taken in the
session's own transactions alone. -/
def servesOwn (state : State) : Op → Bool
  | .count s h explicit snapshot faults =>
      if (state.handlers h).cachedValid then keptInOwn state s (state.handlers h).cached
      else
        match state.registerTrx s explicit snapshot faults with
        | (false, state) => keptInOwn state s (state.handlers h).stats
        | (true, state) =>
            match state.shared s with
            | some count => !(state.connections s).hasTx || keptInOwn state s count
            | none => !faults.countFault || keptInOwn state s (state.handlers h).stats
  | _ => true

def CountsOwn (state : State) : Op → Prop
  | .count s h explicit snapshot faults =>
      OwnRows (state.cachedRecords s h explicit snapshot faults).2 s
        (state.cachedRecords s h explicit snapshot faults).1
  | _ => True

theorem own_of_kept (consistent : EngineConsistent state) (grounded : Grounded state count)
    (kept : keptInOwn state s count = true) : OwnRows state s count := by
  refine ⟨fun write member => ?_, fun entry member => ?_⟩
  · have settled := grounded.committed write member
    exact ⟨settled, (consistent.settled write settled).2⟩
  · obtain ⟨span, write⟩ := entry
    have own := List.all_eq_true.mp kept (span, write) member
    cases span with
    | none => cases own
    | some span =>
        simp only [ownSpan, Bool.or_eq_true, decide_eq_true_eq, List.contains_iff_mem] at own
        rcases own with isOpen | isEnded
        · have held := grounded.live span write member s isOpen
          exact ⟨(consistent.own s write held).1, (consistent.unsettled s write held).2⟩
        · obtain ⟨settled, same⟩ := grounded.ended span write member s isEnded
          exact ⟨same, (consistent.settled write settled).2⟩

theorem SameEngine.ownRows (same : SameEngine state after) (own : OwnRows state s count) :
    OwnRows after s count := by
  refine ⟨?_, ?_⟩
  · rw [same.history, same.rolledBack]
    exact own.settled
  · rw [same.rolledBack]
    exact own.own

theorem countRows_own (consistent : Consistent state) (s : SessionId) (h : HandlerId) :
    OwnRows (state.countRows s h).2 s (state.countRows s h).1 := by
  have grounded := live_grounded consistent.engine s
  have own : OwnRows state s (.live ((state.connections s).snapshot.getD state.committed)
      (state.connections s).span (state.connections s).pending) := by
    refine ⟨fun write member => ?_, fun entry member => ?_⟩
    · have settled := grounded.committed write member
      exact ⟨settled, (consistent.engine.settled write settled).2⟩
    · obtain ⟨write, held, rfl⟩ := List.mem_map.mp member
      exact ⟨(consistent.engine.own s write held).1, (consistent.engine.unsettled s write held).2⟩
  have kept := setHandler_sameEngine state h
  unfold State.countRows
  dsimp only
  split
  · exact ((kept _).trans (setCounts_sameEngine (state.keep h _) s _ _)).ownRows own
  · exact (kept _).ownRows own

theorem cachedRecords_own (consistent : Consistent state) (h : HandlerId) (explicit snapshot : Bool)
    (faults : Faults) (serves : servesOwn state (.count s h explicit snapshot faults) = true) :
    CountsOwn state (.count s h explicit snapshot faults) := by
  have registered := registerTrx_consistent consistent s explicit snapshot faults
  simp only [servesOwn] at serves
  simp only [CountsOwn, State.cachedRecords]
  split
  · rename_i valid
    rw [if_pos valid] at serves
    exact own_of_kept consistent.engine (consistent.caches.cached h) serves
  · rename_i stale
    rw [if_neg stale] at serves
    split
    · rename_i next ran
      rw [ran] at registered serves
      exact own_of_kept registered.engine (registered.caches.stats h) serves
    · rename_i next ran
      rw [ran] at registered serves
      dsimp only at serves
      cases isCount : next.shared s with
      | some count =>
          rw [isCount] at serves
          refine (setHandler_sameEngine next h _).ownRows
            (own_of_kept registered.engine (shared_grounded registered isCount) ?_)
          cases isOpen : (next.connections s).hasTx with
          | true => simpa [isOpen] using serves
          | false =>
              rw [State.shared, isOpen] at isCount
              rw [keptInOwn, (registered.caches.records count isCount).2]
              rfl
      | none =>
          rw [isCount] at serves
          dsimp only
          split
          · rename_i fault
            rw [fault] at serves
            exact own_of_kept registered.engine (registered.caches.stats h) serves
          · exact countRows_own registered s h

theorem initial_consistent : Consistent initial := by
  refine ⟨⟨?_, ?_, ?_, ?_, ?_, ?_, ?_, ?_, ?_⟩, ?_, ?_, ?_, ?_⟩
  · exact fun t write member => by cases member
  · exact fun t write member => by cases member
  · exact fun t => List.nodup_nil
  · exact fun write member => by cases member
  · exact fun write member => by cases member
  · exact fun t span isSpan => by cases isSpan
  · exact fun span t member => by cases member
  · exact fun write member => by cases member
  · exact fun t rows isSnapshot => by cases isSnapshot
  · exact fun h => known_grounded initial 0
  · exact fun h => known_grounded initial 0
  · exact fun t count isCount => by cases isCount
  · exact fun count isCount => by cases isCount

/-- In every run in which no handler serves a count across transactions, and
no transaction one from before a rollback to a savepoint, no count holds a
row of another session's that was not committed, or one rolled back. -/
theorem counts_hold_own_rows (ops : List Op)
    (serves : Runs.Along step (fun state op => servesOwn state op = true) initial ops) :
    Runs.Along step CountsOwn initial ops := by
  have preserved (state : State) (op : Op) (consistent : Consistent state)
      (_ : servesOwn state op = true) : Consistent (step state op) := step_consistent consistent op
  refine Runs.along_of_step preserved (fun state op consistent serves => ?_) initial_consistent serves
  cases op with
  | count s h explicit snapshot faults => exact cachedRecords_own consistent h explicit snapshot faults serves
  | _ => trivial

def willing : Faults := { endFault := false, beginFault := false, countFault := false }

/-- The handler counts in a transaction and after its commit, another one in
another session. -/
theorem counts_hold_own_rows_sample :
    Runs.Along step CountsOwn initial
      [.begin 1 false false false, .count 1 0 true false willing, .write 1 0 2 false,
        .count 1 0 true false willing, .endTx 1 true true false, .count 1 0 false false willing,
        .count 2 1 false false willing] :=
  counts_hold_own_rows _ ⟨by decide, by decide, by decide, by decide, by decide, by decide, by decide, trivial⟩

/-- Session 1 inserts a row in a transaction through a handler that session 2
uses next: it is told of one row, and none is committed. -/
theorem pooled_handler_leaks_row :
    let inserts : List Op :=
      [.begin 1 false false false, .count 1 0 true false willing, .write 1 0 1 false, .reset 0]
    let counts : Op := .count 2 0 false false willing
    ¬ Runs.Along step CountsOwn initial (inserts ++ [counts]) ∧
      ((Runs.after step initial inserts).cachedRecords 2 0 false false willing).1.value = 1 ∧
      (Runs.after step initial inserts).committed = [] := by
  intro inserts counts
  refine ⟨fun along => ?_, by decide, rfl⟩
  have own := along.2.2.2.2.1.own (some 0, { session := 1, serial := 0, delta := 1 }) (List.mem_singleton.mpr rfl)
  exact absurd own.1 (by decide)

end Leaks

end StoolapMariadb.RecordCount
