import StoolapMariadb.Transaction.Callbacks

namespace StoolapMariadb.Transaction

/-! The calls of all connections keep the ledger, in whatever order they come. -/

open StoolapMariadb.Session Checkpoints

variable {Write : Type}

section Worlds

variable {newerStay : Bool} {world : World Write} {ledger : Ledger Write}

/-- What is durable is the ledger's, and every connection's context agrees with
its account. -/
structure World.Refines (world : World Write) (ledger : Ledger Write) : Prop where
  durable : world.committed = ledger.durable
  accounts : ∀ connection, Transaction.Refines (world.context connection) (ledger.accounts connection)

/-- A chunk MariaDB passes is as it was left. -/
def Call.Written : Call Write → Prop
  | .on event => event.Written
  | .closeConnection _ _ => True

/-- What others make durable changes nothing of a connection's own. -/
theorem Refines.onto {context : ThdContext Write} {account : Account Write} (refines : Refines context account)
    (committed : List Write) : Refines (context.onto committed) account where
  consistent := refines.consistent.setDb ⟨rfl, rfl⟩ refines.consistent.unused refines.consistent.wrote
  handle := refines.handle
  own := refines.own
  held := refines.held
  last := refines.last

theorem new_refines {db : Database Write} (fresh : db.nextTx = 0 ∧ db.ended = []) (empty : ∀ tx, db.pending tx = []) :
    Refines (.new db) Account.empty where
  consistent := new_consistent fresh empty
  handle := rfl
  own := rfl
  held := .none
  last := rfl

/-- The other connections, once one has changed what is durable. -/
theorem World.context_other {connection other : Nat} (apart : other ≠ connection) (committed : List Write)
    (left : Option (ThdContext Write)) :
    ({ world with committed, contexts := Function.update world.contexts connection left } : World Write).context other =
      (world.context other).onto committed := by
  simp only [World.context, Function.update_of_ne apart]
  cases world.contexts other <;> rfl

theorem World.context_same {connection : Nat} (committed : List Write) (context : ThdContext Write) :
    ({ world with committed, contexts := Function.update world.contexts connection (some context) } :
      World Write).context connection = context.onto committed := by
  simp only [World.context, Function.update_self, Option.getD_some]

theorem World.context_absent {connection : Nat} (absent : world.contexts connection = none) :
    Transaction.Refines (world.context connection) Account.empty := by
  rw [World.context, absent, Option.getD_none]
  exact (new_refines ⟨rfl, rfl⟩ fun _ => rfl).onto world.committed

theorem World.idle_refines {start : World Write} (idle : ∀ connection, start.contexts connection = none) :
    start.Refines ⟨start.committed, fun _ => .empty⟩ :=
  ⟨rfl, fun connection => World.context_absent (idle connection)⟩

/-- A connection that closes loses what it holds, and nothing else changes. -/
theorem drop_committed {context : ThdContext Write} {account : Account Write} (refines : Refines context account)
    (statement tx : Calls Write) : (context.drop statement tx).committed = context.session.db.committed := by
  have rolled : (context.rollback tx).2.session.db.committed = context.session.db.committed ∧
      Refines (context.rollback tx).2 { account with held := none } := by
    cases hasTx : context.hasTx with
    | true =>
        have entered := @rollback_enters _ true context account refines hasTx tx
        exact ⟨entered.durable, entered.refines⟩
    | false =>
        have stays : (context.rollback tx).2 = context := by simp [ThdContext.rollback, hasTx]
        obtain ⟨outside, isHeld⟩ := refines.outside hasTx
        rw [stays]
        exact ⟨rfl, .of_outside outside hasTx refines.own rfl refines.last⟩
  obtain ⟨same, after⟩ := rolled
  obtain ⟨-, -, -, committed, -⟩ := endStatement_spec after.consistent statement false
  have kept : ((context.rollback tx).2.session.endStatement false statement).2.db.committed =
      context.session.db.committed := by
    rw [committed, same, Bool.false_and, if_neg Bool.false_ne_true, List.append_nil]
  unfold ThdContext.drop
  dsimp only
  split
  · exact kept
  · rw [Database.rollback_eq]
    exact kept

/-- A world in which one connection changed. -/
theorem World.Refines.update (refines : world.Refines ledger) {after : World Write} {connection : Nat}
    {durable : List Write} {account : Account Write} (committed : after.committed = durable)
    (here : Transaction.Refines (after.context connection) account)
    (others : ∀ other, other ≠ connection → after.context other = (world.context other).onto durable) :
    after.Refines { durable, accounts := Function.update ledger.accounts connection account } where
  durable := committed
  accounts := fun other => by
    change Transaction.Refines _ (Function.update ledger.accounts connection account other)
    by_cases same : other = connection
    · subst same
      rw [Function.update_self]
      exact here
    · rw [Function.update_of_ne same, others other same]
      exact (refines.accounts other).onto durable

/-- Without a context there is nothing to end. -/
theorem absent_entries {context : ThdContext Write} {account : Account Write}
    (idle : context.hasTx = false ∧ account.own = []) {event : Event Write} (makes : event.makesContext = false)
    (durable : List Write) :
    ((event.actions context).foldl (act newerStay) (durable, account)) = (durable, account) := by
  have same : { account with own := [] } = account := by rw [← idle.2]
  cases event with
  | commit all explicit statement tx =>
      simp only [Event.actions, idle.1, Bool.and_false, Bool.false_eq_true, if_false, List.foldl_cons, List.foldl_nil,
        act, idle.2, ite_self, List.append_nil]
      exact Prod.ext rfl same
  | rollback all explicit statement tx =>
      simp only [Event.actions, idle.1, Bool.and_false, Bool.false_eq_true, if_false, List.foldl_cons, List.foldl_nil,
        act, List.append_nil]
      exact Prod.ext rfl same
  | _ => cases makes

theorem World.step_refines (refines : world.Refines ledger) {connection : Nat} {call : Call Write}
    (room : (ledger.accounts connection).lastSavepoint + 1 < 2 ^ 64) (written : call.Written) :
    (world.step newerStay (connection, call)).Refines
      (ledger.step newerStay (connection, call.actions (world.context connection))) := by
  have here := refines.accounts connection
  have durable : (world.context connection).session.db.committed = ledger.durable := refines.durable
  have unchanged (other : Nat) : world.context other = (world.context other).onto ledger.durable := by
    rw [← refines.durable]
    rfl
  cases call with
  | on event =>
      unfold Ledger.step World.step World.run
      dsimp only [Call.actions]
      split
      · rename_i skipped
        obtain ⟨makes, absent⟩ := Bool.and_eq_true_iff.mp skipped
        have isNone := Option.isNone_iff_eq_none.mp absent
        have own : (ledger.accounts connection).own = [] := by
          rw [← here.own, World.context, isNone]
          rfl
        have noTx : (world.context connection).hasTx = false := by
          rw [World.context, isNone]
          rfl
        rw [absent_entries ⟨noTx, own⟩ (by simpa using makes)]
        exact refines.update refines.durable here fun other _ => unchanged other
      · have entered := @event_enters _ newerStay _ _ here room event written
        obtain ⟨committed, after⟩ := entered
        rw [durable] at committed after
        refine refines.update committed ?_ fun other apart => ?_
        · rw [World.context_same]
          exact after.onto _
        · rw [World.context_other apart, committed]
  | closeConnection statement tx =>
      unfold Ledger.step World.step World.run
      dsimp only [Call.actions, List.foldl_cons, List.foldl_nil, act]
      split
      · rename_i absent
        exact refines.update refines.durable (World.context_absent (Option.isNone_iff_eq_none.mp absent))
          fun other _ => unchanged other
      · have dropped := (drop_committed here statement tx).trans durable
        refine refines.update dropped (World.context_absent (Function.update_self ..)) fun other apart => ?_
        rw [World.context_other apart, dropped]

end Worlds

section LedgerRuns

variable {newerStay : Bool} {world : World Write} {ledger : Ledger Write}

def Action.isSaves : Action Write → Bool
  | .saves _ => true
  | _ => false

theorem act_last (state : List Write × Account Write) (action : Action Write) :
    (act newerStay state action).2.lastSavepoint = state.2.lastSavepoint + (if action.isSaves then 1 else 0) ∨
      (act newerStay state action).2.lastSavepoint = 0 := by
  obtain ⟨durable, account⟩ := state
  cases action with
  | leaves => exact .inr rfl
  | writes writes =>
      left
      cases isHeld : account.held <;> simp [act, isHeld, Action.isSaves]
  | _ => exact .inl rfl

theorem entries_last (entries : List (Action Write)) (state : List Write × Account Write) :
    (entries.foldl (act newerStay) state).2.lastSavepoint ≤ state.2.lastSavepoint + entries.countP Action.isSaves := by
  induction entries generalizing state with
  | nil => exact Nat.le_refl _
  | cons action entries ih =>
      refine Nat.le_trans (ih _) ?_
      rw [List.countP_cons]
      rcases @act_last _ newerStay state action with counted | zero
      · omega
      · omega

theorem begins_saves (context : ThdContext Write) (level : IsolationLevel) (calls : Calls Write) :
    (context.begins level calls).countP Action.isSaves = 0 := by
  unfold ThdContext.begins
  split
  · rfl
  · split <;> rfl

/-- A call sets one savepoint at most. -/
theorem actions_saves (context : ThdContext Write) (call : Call Write) :
    (call.actions context).countP Action.isSaves ≤ 1 := by
  cases call with
  | closeConnection statement tx => exact Nat.zero_le 1
  | on event =>
      cases event with
      | externalLock explicit isolation calls =>
          simp only [Call.actions, Event.actions]
          split
          · rw [begins_saves]
            exact Nat.zero_le 1
          · exact Nat.zero_le 1
      | startConsistentSnapshot calls => simp [Call.actions, Event.actions, begins_saves]
      | bulkBegin calls => simp [Call.actions, Event.actions, begins_saves]
      | query dml calls =>
          simp only [Call.actions, Event.actions]
          split
          · exact Nat.zero_le 1
          · split <;> exact Nat.zero_le 1
      | read table f calls => exact Nat.zero_le 1
      | write table f calls => exact Nat.zero_le 1
      | savepointSet calls =>
          simp only [Call.actions, Event.actions]
          split
          · exact Nat.le_refl 1
          · exact Nat.zero_le 1
      | bulkRollback calls | commit all explicit statement tx | rollback all explicit statement tx
      | savepointRelease slot calls | savepointRollback slot calls =>
          simp only [Call.actions, Event.actions]
          split <;> exact Nat.zero_le 1

theorem step_last (connection other : Nat) (context : ThdContext Write) (call : Call Write) :
    ((ledger.step newerStay (connection, call.actions context)).accounts other).lastSavepoint ≤
      (ledger.accounts other).lastSavepoint + 1 := by
  change (Function.update ledger.accounts connection _ other).lastSavepoint ≤ _
  by_cases same : other = connection
  · subst same
    rw [Function.update_self]
    exact Nat.le_trans (entries_last _ _) (Nat.add_le_add_left (actions_saves context call) _)
  · rw [Function.update_of_ne same]
    exact Nat.le_succ _

theorem run_refines {calls : List (Nat × Call Write)} (refines : world.Refines ledger)
    (room : ∀ connection, (ledger.accounts connection).lastSavepoint + calls.length < 2 ^ 64)
    (written : ∀ call ∈ calls, call.2.Written) :
    (Runs.after (World.step newerStay) world calls).Refines
      (Runs.after (Ledger.step newerStay) ledger (world.entries newerStay calls)) := by
  induction calls generalizing world ledger with
  | nil => exact refines
  | cons call calls ih =>
      obtain ⟨connection, call⟩ := call
      obtain ⟨here, later⟩ := List.forall_mem_cons.mp written
      rw [World.entries, Runs.after_cons, Runs.after_cons]
      refine ih (World.step_refines refines ?_ here) (fun other => ?_) later
      · have enough := room connection
        rw [List.length_cons] at enough
        omega
      · have enough := room other
        have grown := @step_last _ newerStay ledger connection other (world.context connection) call
        rw [List.length_cons] at enough
        omega

/-- Whatever the connections do and however their calls interleave, what is
durable is what the ledger says, and each connection's transaction is open and
holds what its account does. -/
theorem connections_keep_ledger (newerStay : Bool) {start : World Write}
    (idle : ∀ connection, start.contexts connection = none) {calls : List (Nat × Call Write)}
    (few : calls.length < 2 ^ 64) (written : ∀ call ∈ calls, call.2.Written) :
    let world := Runs.after (World.step newerStay) start calls
    let ledger := Runs.after (Ledger.step newerStay) ⟨start.committed, fun _ => .empty⟩ (start.entries newerStay calls)
    world.committed = ledger.durable ∧ ∀ connection,
      (world.context connection).hasTx = (world.context connection).session.inTransaction ∧
      (world.context connection).session.directWrites = (ledger.accounts connection).own ∧
      (if (world.context connection).hasTx then some (world.context connection).session.openWrites else none) =
        (ledger.accounts connection).held.map Stack.writes := by
  intro world ledger
  have refines : world.Refines ledger :=
    run_refines (World.idle_refines idle) (fun _ => by simpa [Account.empty] using few) written
  refine ⟨refines.durable, fun connection => ?_⟩
  have here := refines.accounts connection
  refine ⟨here.handle, here.own, ?_⟩
  cases hasTx : (world.context connection).hasTx with
  | false =>
      obtain ⟨-, isHeld⟩ := here.outside hasTx
      rw [isHeld]
      rfl
  | true =>
      obtain ⟨-, -, stack, isHeld, represents⟩ := here.inside hasTx
      rw [isHeld, if_pos rfl]
      exact congrArg some represents.writes

/-- An engine with nothing yet, and no connection. -/
def sampleWorld : World Nat where
  tables := sampleDb.tables
  foreignKeys := sampleDb.foreignKeys
  committed := []
  contexts _ := none

/-- A transaction of one connection, and an INSERT of another beside it. -/
def sampleBefore : List (Nat × Call Nat) :=
  [(0, .on (.externalLock true .repeatableRead willing)), (0, .on (.write "t" (.ok 1, [7]) willing)),
    (1, .on (.query .insert { willing with execution := { willing.execution with writes := [9] } }))]

theorem connections_keep_ledger_sample :
    let calls := sampleBefore ++ [(0, .on (.savepointSet willing)), (0, .on (.commit true true willing willing))]
    (Runs.after (World.step true) sampleWorld calls).committed = [9, 7] := by
  have written : ∀ call ∈ sampleBefore ++
      [(0, .on (.savepointSet willing)), (0, .on (.commit true true willing willing))], call.2.Written := by
    simp [sampleBefore, Call.Written, Event.Written]
  obtain ⟨durable, -⟩ := @connections_keep_ledger _ true sampleWorld (fun _ => rfl) _ (by decide) written
  exact durable.trans rfl

end LedgerRuns

end StoolapMariadb.Transaction
