import StoolapMariadb.Transaction.Connections

namespace StoolapMariadb.Transaction

/-! What a savepoint restores. While a transaction goes on and does not go back
past a savepoint, all its work is on the newer ones. -/

open StoolapMariadb.Session Checkpoints

variable {Write : Type}

section Restoring

variable {newerStay : Bool} {world : World Write} {ledger : Ledger Write} {account middle after : Account Write}
  {id : Nat}

/-- No savepoint has an id past the last. -/
def Account.Known (account : Account Write) : Prop :=
  ∀ stack ∈ account.held, ∀ save ∈ stack.saved, save.1 ≤ account.lastSavepoint

theorem act_known (state : List Write × Account Write) (action : Action Write) (known : state.2.Known) :
    (act newerStay state action).2.Known := by
  obtain ⟨durable, account⟩ := state
  have kept {left : Option (Stack Nat Write)}
      (fewer : ∀ stack ∈ left, ∃ before ∈ account.held, stack.saved ⊆ before.saved) (own : List Write) :
      (⟨own, left, account.lastSavepoint⟩ : Account Write).Known := by
    intro stack isStack save isSave
    obtain ⟨before, isBefore, subset⟩ := fewer stack isStack
    exact known before isBefore save (subset isSave)
  have absent (own : List Write) (last : Nat) : (⟨own, none, last⟩ : Account Write).Known := by
    intro stack isStack
    cases isStack
  have restored {op : Stack Nat Write → Option (Stack Nat Write)}
      (fewer : ∀ stack left, op stack = some left → left.saved ⊆ stack.saved) :
      (⟨account.own, account.held.map fun stack => (op stack).getD stack, account.lastSavepoint⟩ :
        Account Write).Known := by
    refine kept (fun stack isStack => ?_) account.own
    obtain ⟨before, isBefore, rfl⟩ := Option.map_eq_some_iff.mp isStack
    refine ⟨before, isBefore, ?_⟩
    cases left : op before with
    | none => exact fun _ same => same
    | some stack => exact fewer before stack left
  cases action with
  | statementEnds done => exact kept (fun stack isStack => ⟨stack, isStack, fun _ same => same⟩) []
  | begins =>
      intro stack isStack save isSave
      cases isStack
      cases isSave
  | commits done => exact absent _ _
  | discards => exact absent _ _
  | leaves => exact absent _ _
  | autocommits writes => exact known
  | writes writes =>
      cases isHeld : account.held with
      | none =>
          simp only [act, isHeld]
          exact absent _ _
      | some stack =>
          simp only [act, isHeld]
          refine kept (fun other isOther => ⟨stack, isHeld, ?_⟩) account.own
          cases isOther
          exact fun _ same => same
  | restores id =>
      refine restored fun stack left isLeft => ?_
      simp only [Stack.restore] at isLeft
      split at isLeft
      · cases isLeft
      · rename_i save older found
        cases isLeft
        exact fun one isOne => (upTo_suffix id stack.saved).subset (found ▸ isOne)
  | releases id =>
      refine restored fun stack left isLeft => ?_
      obtain ⟨saved, isWithout, rfl⟩ := Option.map_eq_some_iff.mp isLeft
      exact (without_sublist isWithout).subset
  | saves done =>
      intro stack isStack save isSave
      obtain ⟨before, isBefore, rfl⟩ := Option.map_eq_some_iff.mp isStack
      have older : save ∈ before.saved → save.1 ≤ account.lastSavepoint + 1 := fun member =>
        Nat.le_succ_of_le (known before isBefore save member)
      cases done with
      | false => exact older isSave
      | true =>
          rcases List.mem_cons.mp isSave with rfl | member
          · exact Nat.le_refl _
          · exact older member

theorem entries_known (entries : List (Action Write)) (state : List Write × Account Write) (known : state.2.Known) :
    (entries.foldl (act newerStay) state).2.Known := by
  induction entries generalizing state with
  | nil => exact known
  | cons action entries ih => exact ih _ (act_known state action known)

/-- The work on the newer savepoints, none of which is `id`. -/
def Above (newerStay : Bool) (id : Nat) (before after : Account Write) : Prop :=
  before.lastSavepoint ≤ after.lastSavepoint ∧ ∀ stack ∈ before.held, ∃ works : List (Work Nat Write),
    after.held = some (Runs.after (Stack.step newerStay) stack works) ∧ ∀ work ∈ works, ∀ other ∈ work.id?, id < other

theorem Above.refl (account : Account Write) : Above newerStay id account account :=
  ⟨Nat.le_refl _, fun stack isHeld => ⟨[], isHeld, fun _ member => by cases member⟩⟩

theorem Above.trans (one : Above newerStay id account middle) (two : Above newerStay id middle after) :
    Above newerStay id account after := by
  refine ⟨Nat.le_trans one.1 two.1, fun stack isHeld => ?_⟩
  obtain ⟨first, isFirst, firstNewer⟩ := one.2 stack isHeld
  obtain ⟨second, isSecond, secondNewer⟩ := two.2 _ isFirst
  refine ⟨first ++ second, ?_, fun work member => ?_⟩
  · rw [isSecond, Runs.after_append]
  · rcases List.mem_append.mp member with isOne | isTwo
    · exact firstNewer work isOne
    · exact secondNewer work isTwo

/-- An entry that neither ends the transaction nor goes back as far as `id`. -/
def Action.Within (id : Nat) : Action Write → Prop
  | .begins | .commits _ | .discards | .leaves => False
  | .restores other | .releases other => id < other
  | .statementEnds _ | .writes _ | .autocommits _ | .saves _ => True

theorem act_above (state : List Write × Account Write) {action : Action Write} (within : action.Within id)
    (held : state.2.held.isSome) (recent : id ≤ state.2.lastSavepoint) :
    Above newerStay id state.2 (act newerStay state action).2 := by
  obtain ⟨durable, account⟩ := state
  obtain ⟨stack, isHeld⟩ := Option.isSome_iff_exists.mp held
  change account.held = some stack at isHeld
  have worked {work : Work Nat Write} {last : Nat} {own : List Write} (newer : ∀ other ∈ work.id?, id < other)
      (later : account.lastSavepoint ≤ last) {left : Option (Stack Nat Write)}
      (isLeft : left = some (Stack.step newerStay stack work)) : Above newerStay id account ⟨own, left, last⟩ := by
    refine ⟨later, fun other isOther => ⟨[work], ?_, ?_⟩⟩
    · rw [isHeld] at isOther
      cases isOther
      exact isLeft
    · intro one isOne
      rw [List.mem_singleton.mp isOne]
      exact newer
  cases action with
  | begins => exact within.elim
  | commits done => exact within.elim
  | discards => exact within.elim
  | leaves => exact within.elim
  | statementEnds done => exact ⟨Nat.le_refl _, (Above.refl account).2⟩
  | autocommits writes => exact .refl account
  | writes writes =>
      simp only [act, isHeld]
      exact @worked (.write writes) _ _ (fun _ absent => by cases absent) (Nat.le_refl _) _ rfl
  | saves done =>
      cases done with
      | false =>
          refine ⟨Nat.le_succ _, fun other isOther => ⟨[], ?_, fun _ member => by cases member⟩⟩
          simp only [act, isHeld] at isOther ⊢
          cases isOther
          rfl
      | true =>
          refine @worked (.save (account.lastSavepoint + 1)) _ _ (fun other isOther => ?_) (Nat.le_succ _) _ ?_
          · cases isOther
            exact Nat.lt_succ_of_le recent
          · rw [isHeld]
            rfl
  | restores other =>
      refine @worked (.restore other) _ _ (fun one isOne => ?_) (Nat.le_refl _) _ ?_
      · cases isOne
        exact within
      · rw [isHeld]
        rfl
  | releases other =>
      refine @worked (.release other) _ _ (fun one isOne => ?_) (Nat.le_refl _) _ ?_
      · cases isOne
        exact within
      · rw [isHeld]
        rfl

theorem entries_above (entries : List (Action Write)) (state : List Write × Account Write)
    (within : ∀ action ∈ entries, action.Within id) (held : state.2.held.isSome) (recent : id ≤ state.2.lastSavepoint) :
    Above newerStay id state.2 (entries.foldl (act newerStay) state).2 := by
  induction entries generalizing state with
  | nil => exact .refl _
  | cons action entries ih =>
      obtain ⟨here, later⟩ := List.forall_mem_cons.mp within
      have above := @act_above _ newerStay id state action here held recent
      obtain ⟨stack, isHeld⟩ := Option.isSome_iff_exists.mp held
      obtain ⟨works, stillHeld, -⟩ := above.2 stack isHeld
      exact above.trans (ih (act newerStay state action) later (by rw [stillHeld]; rfl) (Nat.le_trans recent above.1))

/-- A call that neither ends the connection's transaction nor goes back as far
as the savepoint `id`. The end of a statement alone does not. -/
def Event.Within (id : Nat) : Event Write → Prop
  | .commit all explicit _ _ | .rollback all explicit _ _ => all = false ∧ explicit = true
  | .bulkRollback _ => False
  | .savepointRelease slot _ | .savepointRollback slot _ => id < slot.id.toNat
  | _ => True

def Call.Within (id : Nat) : Call Write → Prop
  | .on event => event.Within id
  | .closeConnection _ _ => False

theorem begins_none {context : ThdContext Write} (hasTx : context.hasTx = true) (level : IsolationLevel)
    (calls : Calls Write) : context.begins level calls = [] := if_pos hasTx

theorem actions_within {context : ThdContext Write} (hasTx : context.hasTx = true) {call : Call Write}
    (within : call.Within id) : ∀ action ∈ call.actions context, action.Within id := by
  cases call with
  | closeConnection statement tx => exact within.elim
  | on event =>
      intro action member
      simp only [Call.actions] at member
      cases event with
      | bulkRollback calls => exact within.elim
      | externalLock explicit isolation calls => simp [Event.actions, begins_none hasTx] at member
      | startConsistentSnapshot calls => simp [Event.actions, begins_none hasTx] at member
      | bulkBegin calls => simp [Event.actions, begins_none hasTx] at member
      | read table f calls => cases member
      | query dml calls =>
          simp only [Event.actions, hasTx, if_true] at member
          split at member
          · cases member
          · rw [List.mem_singleton.mp member]
            trivial
      | write table f calls =>
          rw [List.mem_singleton.mp member]
          trivial
      | commit all explicit statement tx =>
          obtain ⟨rfl, rfl⟩ := within
          rw [List.mem_singleton.mp member]
          trivial
      | rollback all explicit statement tx =>
          obtain ⟨rfl, rfl⟩ := within
          rw [List.mem_singleton.mp member]
          trivial
      | savepointSet calls =>
          simp only [Event.actions, hasTx, if_true] at member
          rw [List.mem_singleton.mp member]
          trivial
      | savepointRelease slot calls | savepointRollback slot calls =>
          simp only [Event.actions] at member
          split at member
          · rw [List.mem_singleton.mp member]
            exact within
          · cases member

theorem Refines.hasTx {context : ThdContext Write} {account : Account Write} (refines : Refines context account)
    (held : account.held.isSome) : context.hasTx = true := by
  cases noTx : context.hasTx with
  | true => rfl
  | false =>
      rw [(refines.outside noTx).2] at held
      cases held

theorem step_here (connection : Nat) (entries : List (Action Write)) :
    (ledger.step newerStay (connection, entries)).accounts connection =
      (entries.foldl (act newerStay) (ledger.durable, ledger.accounts connection)).2 := Function.update_self ..

theorem run_last {calls : List (Nat × Call Write)} (other : Nat) :
    ((Runs.after (Ledger.step newerStay) ledger (world.entries newerStay calls)).accounts other).lastSavepoint ≤
      (ledger.accounts other).lastSavepoint + calls.length := by
  induction calls generalizing world ledger with
  | nil => exact Nat.le_refl _
  | cons call calls ih =>
      obtain ⟨connection, call⟩ := call
      have grown := @step_last _ newerStay ledger connection other (world.context connection) call
      have later := @ih (world.step newerStay (connection, call))
        (ledger.step newerStay (connection, call.actions (world.context connection)))
      rw [World.entries, Runs.after_cons, List.length_cons]
      omega

theorem run_known {calls : List (Nat × Call Write)} (known : ∀ other, (ledger.accounts other).Known) (other : Nat) :
    ((Runs.after (Ledger.step newerStay) ledger (world.entries newerStay calls)).accounts other).Known := by
  induction calls generalizing world ledger with
  | nil => exact known other
  | cons call calls ih =>
      obtain ⟨connection, call⟩ := call
      rw [World.entries, Runs.after_cons]
      refine ih fun one => ?_
      by_cases same : one = connection
      · subst same
        rw [step_here]
        exact entries_known _ _ (known one)
      · change (Function.update ledger.accounts connection _ one).Known
        rw [Function.update_of_ne same]
        exact known one

/-- A run in which a connection's transaction stays open and works only on what
is newer than `id`. -/
theorem run_above {calls : List (Nat × Call Write)} (refines : world.Refines ledger)
    (room : ∀ connection, (ledger.accounts connection).lastSavepoint + calls.length < 2 ^ 64)
    (written : ∀ call ∈ calls, call.2.Written) {connection : Nat}
    (within : ∀ call ∈ calls, call.1 = connection → call.2.Within id)
    (held : (ledger.accounts connection).held.isSome) (recent : id ≤ (ledger.accounts connection).lastSavepoint) :
    Above newerStay id (ledger.accounts connection)
      ((Runs.after (Ledger.step newerStay) ledger (world.entries newerStay calls)).accounts connection) := by
  induction calls generalizing world ledger with
  | nil => exact .refl _
  | cons call calls ih =>
      obtain ⟨who, call⟩ := call
      obtain ⟨writtenHere, writtenLater⟩ := List.forall_mem_cons.mp written
      obtain ⟨withinHere, withinLater⟩ := List.forall_mem_cons.mp within
      have enough (other : Nat) : (ledger.accounts other).lastSavepoint + 1 + calls.length < 2 ^ 64 := by
        have whole := room other
        rw [List.length_cons] at whole
        omega
      have stepped := @World.step_refines _ newerStay world ledger refines who call
        (Nat.lt_of_le_of_lt (Nat.le_add_right ..) (enough who)) writtenHere
      have roomLater (other : Nat) := Nat.lt_of_le_of_lt
        (Nat.add_le_add_right (@step_last _ newerStay ledger who other (world.context who) call) calls.length)
        (enough other)
      rw [World.entries, Runs.after_cons]
      by_cases same : who = connection
      · subst same
        have hasTx := (refines.accounts who).hasTx held
        have above := @entries_above _ newerStay id (call.actions (world.context who))
          (ledger.durable, ledger.accounts who) (actions_within hasTx (withinHere rfl)) held recent
        rw [← step_here] at above
        obtain ⟨stack, isHeld⟩ := Option.isSome_iff_exists.mp held
        obtain ⟨works, stillHeld, -⟩ := above.2 stack isHeld
        exact above.trans (ih stepped roomLater writtenLater withinLater (by rw [stillHeld]; rfl)
          (Nat.le_trans recent above.1))
      · have other : (ledger.step newerStay (who, call.actions (world.context who))).accounts connection =
            ledger.accounts connection := Function.update_of_ne (fun found => same found.symm) ..
        have later := ih stepped roomLater writtenLater withinLater (by rw [other]; exact held)
          (by rw [other]; exact recent)
        rw [other] at later
        exact later

/-- After any such work the savepoint `id` restores what was held when it was
saved. -/
theorem Above.restores {stack : Stack Nat Write} (above : Above newerStay id account after)
    (isHeld : account.held = some (stack.save id)) (older : ∀ save ∈ stack.saved, save.1 < id) (durable : List Write) :
    (act newerStay (durable, after) (.restores id)).2.held = some (stack.save id) := by
  obtain ⟨works, isAfter, newer⟩ := above.2 _ isHeld
  have restored : (Runs.after (Stack.step newerStay) (stack.save id) works).restore id = some (stack.save id) :=
    Stack.restore_after fun work isWork other isOther =>
      ⟨(newer work isWork other isOther).ne',
        fun save isSave => ((older save isSave).trans (newer work isWork other isOther)).ne⟩
  simp only [act, isAfter, Option.map_some, restored, Option.getD_some]

/-- A run from idle connections keeps some ledger, with no savepoint past the
last. -/
theorem reached_refines {start : World Write} (idle : ∀ connection, start.contexts connection = none)
    {calls : List (Nat × Call Write)} (few : calls.length < 2 ^ 64) (written : ∀ call ∈ calls, call.2.Written) :
    ∃ ledger, (Runs.after (World.step newerStay) start calls).Refines ledger ∧
      ∀ other, (ledger.accounts other).lastSavepoint ≤ calls.length ∧ (ledger.accounts other).Known := by
  refine ⟨_, run_refines (World.idle_refines idle) (fun _ => by simpa [Account.empty] using few) written,
    fun other => ⟨?_, ?_⟩⟩
  · simpa [Account.empty] using
      @run_last _ newerStay start ⟨start.committed, fun _ => .empty⟩ calls other
  · exact run_known (fun _ _ isStack => by cases isStack) other

theorem set_refines (refines : world.Refines ledger) {connection : Nat} {stack : Stack Nat Write} {set : Calls Write}
    (room : (ledger.accounts connection).lastSavepoint + 1 < 2 ^ 64) (hasTx : (world.context connection).hasTx = true)
    (isHeld : (ledger.accounts connection).held = some stack) (isSet : accepted set = true) :
    ∃ middle, (world.step newerStay (connection, .on (.savepointSet set))).Refines middle ∧
      (∀ other, (middle.accounts other).lastSavepoint ≤ (ledger.accounts other).lastSavepoint + 1) ∧
      (middle.accounts connection).held = some (stack.save ((ledger.accounts connection).lastSavepoint + 1)) ∧
      (middle.accounts connection).lastSavepoint = (ledger.accounts connection).lastSavepoint + 1 := by
  have sets : (Call.on (.savepointSet set)).actions (world.context connection) = [.saves true] := by
    simp only [Call.actions, Event.actions, hasTx, if_true, isSet]
  refine ⟨_, World.step_refines refines room trivial, fun other => step_last connection other _ _, ?_⟩
  rw [step_here, sets]
  simp only [List.foldl_cons, List.foldl_nil, act, isHeld, Option.map_some, if_true, and_self]

/-- ROLLBACK TO a savepoint, whatever the connections did since it was set, short
of ending its transaction or going back past it: the transaction is open and
holds what it held then. -/
theorem rollback_to_restores (newerStay : Bool) {start world : World Write}
    (idle : ∀ connection, start.contexts connection = none) {before between : List (Nat × Call Write)}
    (reached : Runs.after (World.step newerStay) start before = world)
    (few : before.length + between.length + 2 < 2 ^ 64) (written : ∀ call ∈ before ++ between, call.2.Written)
    {connection : Nat} (hasTx : (world.context connection).hasTx = true) {set back : Calls Write}
    (isSet : accepted set = true) (goesBack : accepted back = true)
    (within : ∀ call ∈ between, call.1 = connection →
      call.2.Within ((world.context connection).nextSavepointId + 1).toNat) :
    let slot := formatSavepointSlot ((world.context connection).nextSavepointId + 1)
    let after := Runs.after (World.step newerStay) world
      ((connection, .on (.savepointSet set)) :: between ++ [(connection, .on (.savepointRollback slot back))])
    (after.context connection).hasTx = true ∧
      (after.context connection).session.openWrites = (world.context connection).session.openWrites := by
  intro slot after
  obtain ⟨ledger, refines, bounded⟩ := reached ▸ @reached_refines _ newerStay start idle before (by omega)
    fun call isBefore => written call (List.mem_append_left _ isBefore)
  have writtenBetween := fun call isBetween => written call (List.mem_append_right before isBetween)
  have room : (ledger.accounts connection).lastSavepoint + 1 < 2 ^ 64 := by
    have last := (bounded connection).1
    omega
  obtain ⟨-, -, stack, isHeld, represents⟩ := (refines.accounts connection).inside hasTx
  have older : ∀ save ∈ stack.saved, save.1 < (ledger.accounts connection).lastSavepoint + 1 := fun save isSave =>
    Nat.lt_succ_of_le ((bounded connection).2 stack isHeld save isSave)
  have isId := (refines.accounts connection).next room
  obtain ⟨middle, saved, grown, isSaved, isLast⟩ := @set_refines _ newerStay _ _ refines _ _ _ room hasTx isHeld isSet
  rw [isId, ← isLast] at within
  rw [← isLast] at older isSaved
  have roomBetween (other : Nat) : (middle.accounts other).lastSavepoint + between.length + 1 < 2 ^ 64 := by
    have last := (bounded other).1
    have once := grown other
    omega
  have stays := @run_refines _ newerStay _ _ between saved (fun other => Nat.lt_of_succ_lt (roomBetween other))
    writtenBetween
  have above := @run_above _ newerStay _ _ _ between saved (fun other => Nat.lt_of_succ_lt (roomBetween other))
    writtenBetween connection within (by rw [isSaved]; rfl) (Nat.le_refl _)
  have lastBetween := @run_last _ newerStay (world.step newerStay (connection, .on (.savepointSet set))) middle between
    connection
  have isAfter : after = (Runs.after (World.step newerStay) (world.step newerStay (connection, .on (.savepointSet set)))
      between).step newerStay (connection, .on (.savepointRollback slot back)) := by
    simp only [after, Runs.after_cons, Runs.after_append, Runs.after_nil]
  rw [isAfter]
  generalize Runs.after (Ledger.step newerStay) middle _ = final at stays above lastBetween
  generalize Runs.after (World.step newerStay) _ between = atBack at stays ⊢
  have backTx : (atBack.context connection).hasTx = true := by
    obtain ⟨works, stillHeld, -⟩ := above.2 _ isSaved
    exact (stays.accounts connection).hasTx (by rw [stillHeld]; rfl)
  have goes : (Call.on (.savepointRollback slot back)).actions (atBack.context connection) =
      [.restores (middle.accounts connection).lastSavepoint] := by
    simp only [Call.actions, Event.actions, backTx, goesBack, Bool.and_self, if_true]
    rw [isLast, ← isId]
    rfl
  have back := @World.step_refines _ newerStay _ _ stays connection (.on (.savepointRollback slot back))
    (Nat.lt_of_le_of_lt (Nat.succ_le_succ lastBetween) (roomBetween connection)) rfl
  have restored := above.restores isSaved older final.durable
  have here := back.accounts connection
  rw [goes, step_here, List.foldl_cons, List.foldl_nil] at here
  have isOpen := here.hasTx (by rw [restored]; rfl)
  obtain ⟨-, -, left, isLeft, holds⟩ := here.inside isOpen
  rw [restored] at isLeft
  cases isLeft
  exact ⟨isOpen, holds.writes.trans represents.writes.symm⟩

/-- What is written after the savepoint is gone. -/
theorem rollback_to_restores_sample :
    let world := Runs.after (World.step true) sampleWorld sampleBefore
    let after := Runs.after (World.step true) world
      [(0, .on (.savepointSet willing)), (0, .on (.write "t" (.ok 1, [8]) willing)),
        (0, .on (.savepointRollback (formatSavepointSlot 1) willing))]
    (after.context 0).hasTx = true ∧ (after.context 0).session.openWrites = [7] := by
  intro world after
  have restored := @rollback_to_restores _ true sampleWorld world (fun _ => rfl) sampleBefore
    [(0, .on (.write "t" (.ok 1, [8]) willing))] rfl (by decide)
    (by simp [sampleBefore, Call.Written, Event.Written]) 0 rfl willing willing rfl rfl
    (by simp [Call.Within, Event.Within])
  exact ⟨restored.1, restored.2.trans rfl⟩

end Restoring

end StoolapMariadb.Transaction
