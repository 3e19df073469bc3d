import Mathlib.Algebra.Group.Nat.Defs
import StoolapMariadb.Transaction.Ledger

namespace StoolapMariadb.Transaction

/-! The engine's savepoints, known by the names the plugin gives them, are those
of the ledger, known by their ids. -/

open StoolapMariadb.Session Checkpoints

variable {Write : Type}

section Names

def spName (id : Nat) : List Char := ("sp" ++ toString id).toList

theorem spName_digits (id : Nat) : spName id = "sp".toList ++ Nat.toDigits 10 id := by
  rw [spName, String.toList_append, Nat.toString_eq_repr, Nat.toList_repr]

theorem spName_injective : Function.Injective spName := by
  intro one other same
  rw [spName_digits, spName_digits] at same
  have digits := congrArg (Nat.ofDigitChars 10 · 0) (List.append_cancel_left same)
  simpa using digits

theorem spName_length {id : Nat} (small : id < 2 ^ 64) : (spName id).length ≤ 22 := by
  have digits : (Nat.toDigits 10 id).length ≤ 20 :=
    (Nat.length_toDigits_le_iff (by decide) (by decide)).mpr (Nat.lt_trans small (by decide))
  rw [spName_digits, List.length_append]
  exact Nat.add_le_add (by decide) digits

/-- No name is cut to fit its chunk. -/
theorem formatSavepointSlot_name (id : UInt64) : (formatSavepointSlot id).name = spName id.toNat :=
  List.take_of_length_le (Nat.le_succ_of_le (spName_length id.toNat_lt))

theorem Verb.text_length (verb : Verb) : verb.text.toList.length ≤ 21 := by
  cases verb <;> decide

/-- Nor a statement, which the engine reads as it was meant. -/
theorem readSavepoint_sql (verb : Verb) (id : UInt64) :
    readSavepoint (savepointSql verb (formatSavepointSlot id)) = some (verb, spName id.toNat) := by
  have fits : (verb.text.toList ++ ' ' :: spName id.toNat).length ≤ 63 := by
    have text := verb.text_length
    have name := spName_length id.toNat_lt
    simp only [List.length_append, List.length_cons]
    omega
  rw [savepointSql, formatSavepointSlot_name, List.take_of_length_le fits]
  cases verb with
  | savepoint => rfl
  | releaseSavepoint => rfl
  | rollbackToSavepoint => rfl

end Names

section Savepoints

variable {newerStay : Bool} {context : ThdContext Write} {name : List Char} {calls : Calls Write}
  {log left : Log (List Char) Write} {held : List Write}

def Verb.act (newerStay : Bool) (id : Nat) (stack : Stack Nat Write) : Verb → Option (Stack Nat Write)
  | .savepoint => some (stack.save id)
  | .releaseSavepoint => stack.release newerStay id
  | .rollbackToSavepoint => stack.restore id

theorem Verb.represents {stack : Stack Nat Write} (represents : Represents spName log stack) (verb : Verb) (id : Nat) :
    Option.Rel (Represents spName) (verb.run newerStay (spName id) log) (verb.act newerStay id stack) := by
  have apart : ∀ save ∈ stack.saved, spName save.1 = spName id → save.1 = id := fun _ _ same => spName_injective same
  cases verb with
  | savepoint => exact .some (represents.mark id)
  | releaseSavepoint => exact represents.release newerStay apart
  | rollbackToSavepoint => exact represents.restore apart

/-- What is left of a log's writes are its first. -/
theorem Verb.run_writes {verb : Verb} (ran : verb.run newerStay name log = some left) :
    left.writes = log.writes.take left.writes.length ∧
      ((∀ text, verb.statement name ≠ .rollback text) → left.writes = log.writes) := by
  cases verb with
  | savepoint =>
      cases ran
      exact ⟨List.take_length.symm, fun _ => rfl⟩
  | releaseSavepoint =>
      obtain ⟨marks, -, rfl⟩ := Option.map_eq_some_iff.mp ran
      exact ⟨List.take_length.symm, fun _ => rfl⟩
  | rollbackToSavepoint =>
      simp only [Verb.run, Log.restore] at ran
      split at ran
      · cases ran
      · cases ran
        refine ⟨?_, fun other => absurd rfl (other _)⟩
        simp only [List.length_take, ← List.take_take, List.take_length]

theorem Verb.allowed (verb : Verb) :
    runsInTransaction (verb.statement name) = .ok () ∧ (verb.statement name).mayWrite = false := by
  cases verb <;> exact ⟨rfl, rfl⟩

theorem savepointAnswer_left (verb : Verb) (name : List Char) (result : Except Error Int64)
    (log : Log (List Char) Write) :
    (ThdContext.savepointAnswer newerStay verb name result log).toOption.getD log =
        (if result.isOk then (verb.run newerStay name log).getD log else log) ∧
      ((ThdContext.savepointAnswer newerStay verb name result log).isOk = false →
        (ThdContext.savepointAnswer newerStay verb name result log).toOption.getD log = log) := by
  cases result with
  | error error => exact ⟨rfl, fun _ => rfl⟩
  | ok count =>
      unfold ThdContext.savepointAnswer
      cases verb.run newerStay name log with
      | none => exact ⟨rfl, fun _ => rfl⟩
      | some left => exact ⟨rfl, fun refused => by cases refused⟩

theorem Verb.left_writes (verb : Verb) (name : List Char) (log : Log (List Char) Write) :
    ((verb.run newerStay name log).getD log).writes =
        log.writes.take ((verb.run newerStay name log).getD log).writes.length ∧
      ((∀ text, verb.statement name ≠ .rollback text) →
        ((verb.run newerStay name log).getD log).writes = log.writes) := by
  cases ran : verb.run newerStay name log with
  | none => exact ⟨List.take_length.symm, fun _ => rfl⟩
  | some left => exact Verb.run_writes ran

/-- A savepoint statement changes the log as the engine's savepoints say, and
nothing when it is refused. -/
theorem runSavepoint_log (inside : Inside context.session context.session.openWrites) (verb : Verb) (name : List Char)
    (calls : Calls Write) :
    ∃ session marks, (context.runSavepoint newerStay verb name calls).2 = { context with session, marks } ∧
      Inside session session.openWrites ∧ session.db.committed = context.session.db.committed ∧
      (⟨session.openWrites, marks⟩ : Log (List Char) Write) =
        if accepted calls then (verb.run newerStay name context.log).getD context.log else context.log := by
  obtain ⟨isLeft, refused⟩ := @savepointAnswer_left _ newerStay verb name calls.execution.result context.log
  unfold ThdContext.runSavepoint
  dsimp only
  generalize ThdContext.savepointAnswer newerStay verb name calls.execution.result context.log = answer
    at isLeft refused ⊢
  generalize answer.toOption.getD context.log = left at isLeft refused ⊢
  have writes : left.writes = context.session.openWrites.take left.writes.length ∧
      ((∀ text, verb.statement name ≠ .rollback text) → left.writes = context.session.openWrites) := by
    rw [isLeft]
    split
    · exact Verb.left_writes verb name context.log
    · exact ⟨List.take_length.symm, fun _ => rfl⟩
  cases planned : calls.planFault with
  | some error =>
      have refuses : accepted calls = false := by simp [accepted, planned]
      rw [refuses, run_refused rfl]
      exact ⟨context.session, context.marks, rfl, inside, rfl, (if_neg Bool.false_ne_true).symm⟩
  | none =>
      obtain ⟨ran, after, committed⟩ := @run_savepoint _ context.session context.session.openWrites
        (verb.statement name)
        { calls with
          execution := { result := answer.map fun _ => (0 : Int64), writes := [], keep := left.writes.length } }
        inside planned verb.allowed (fun other => writes.1.symm.trans (writes.2 other))
      have holds := after.holds.trans writes.1.symm
      have marks : (if answer.isOk then left.marks else context.marks) = left.marks := by
        cases isOk : answer.isOk with
        | true => rfl
        | false =>
            rw [refused isOk]
            rfl
      have sameOk : (answer.map fun _ => (0 : Int64)).isOk = answer.isOk := by cases answer <;> rfl
      have takes : accepted calls = calls.execution.result.isOk := by simp [accepted, planned]
      rw [planned] at ran after committed holds
      rw [takes, ← isLeft]
      refine ⟨_, left.marks, ?_, ⟨after.consistent, after.isOpen, rfl⟩, committed, ?_⟩
      · rw [ran, sameOk, marks]
      · rw [holds]

end Savepoints

end StoolapMariadb.Transaction
