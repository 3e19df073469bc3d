import Mathlib.Data.List.Forall2
import Mathlib.Data.List.TakeWhile
import StoolapMariadb.Lib.Runs

namespace Checkpoints

/-! Checkpoints of a log that grows. A log keeps how long it was at each; a
stack keeps what it held. The names a log knows its checkpoints by need not be
those of the stack. -/

variable {Id Name Write α β : Type}

/-- The checkpoints are newest first. -/
structure Log (Name Write : Type) where
  writes : List Write
  marks : List (Name × Nat)

structure Stack (Id Write : Type) where
  writes : List Write
  saved : List (Id × List Write)

section Operations

variable [DecidableEq Name] [DecidableEq Id]

/-- The checkpoint `name` and those before it. -/
def upTo (name : Name) (marks : List (Name × α)) : List (Name × α) := marks.dropWhile fun mark => mark.1 ≠ name

/-- The checkpoints without `name`: with those after it or not. -/
def without (newerStay : Bool) (name : Name) (marks : List (Name × α)) : Option (List (Name × α)) :=
  match upTo name marks with
  | [] => none
  | _ :: older => some (if newerStay then (marks.takeWhile fun mark => mark.1 ≠ name) ++ older else older)

def Log.write (writes : List Write) (log : Log Name Write) : Log Name Write :=
  { log with writes := log.writes ++ writes }

def Log.mark (name : Name) (log : Log Name Write) : Log Name Write :=
  { log with marks := (name, log.writes.length) :: log.marks }

def Log.restore (name : Name) (log : Log Name Write) : Option (Log Name Write) :=
  match upTo name log.marks with
  | [] => none
  | mark :: older => some { writes := log.writes.take mark.2, marks := mark :: older }

def Log.release (newerStay : Bool) (name : Name) (log : Log Name Write) : Option (Log Name Write) :=
  (without newerStay name log.marks).map fun marks => { log with marks }

def Stack.write (writes : List Write) (stack : Stack Id Write) : Stack Id Write :=
  { stack with writes := stack.writes ++ writes }

def Stack.save (id : Id) (stack : Stack Id Write) : Stack Id Write :=
  { stack with saved := (id, stack.writes) :: stack.saved }

def Stack.restore (id : Id) (stack : Stack Id Write) : Option (Stack Id Write) :=
  match upTo id stack.saved with
  | [] => none
  | save :: older => some { writes := save.2, saved := save :: older }

def Stack.release (newerStay : Bool) (id : Id) (stack : Stack Id Write) : Option (Stack Id Write) :=
  (without newerStay id stack.saved).map fun saved => { stack with saved }

end Operations

section Representing

/-- The log's checkpoints are the stack's: each marks what the log then held,
and an older one no more than a newer. -/
structure Represents (name : Id → Name) (log : Log Name Write) (stack : Stack Id Write) : Prop where
  writes : log.writes = stack.writes
  marks : List.Forall₂ (fun mark save => mark.1 = name save.1 ∧ save.2 = log.writes.take mark.2) log.marks stack.saved
  ordered : log.marks.Pairwise fun newer older => older.2 ≤ newer.2
  within : ∀ mark ∈ log.marks, mark.2 ≤ log.writes.length

variable {name : Id → Name} {log : Log Name Write} {stack : Stack Id Write}

theorem Represents.empty (writes : List Write) : Represents name (⟨writes, []⟩ : Log Name Write) ⟨writes, []⟩ :=
  ⟨rfl, .nil, .nil, fun _ member => by cases member⟩

theorem Represents.write (represents : Represents name log stack) (writes : List Write) :
    Represents name (log.write writes) (stack.write writes) where
  writes := by rw [Log.write, Stack.write, represents.writes]
  marks := by
    refine ((List.forall₂_and_left _ _).mpr ⟨represents.within, represents.marks⟩).imp fun mark save related => ?_
    obtain ⟨isWithin, sameName, saved⟩ := related
    exact ⟨sameName, saved.trans (List.take_append_of_le_length isWithin).symm⟩
  ordered := represents.ordered
  within := fun mark isMark => by
    rw [Log.write, List.length_append]
    exact Nat.le_add_right_of_le (represents.within mark isMark)

theorem Represents.mark (represents : Represents name log stack) (id : Id) :
    Represents name (log.mark (name id)) (stack.save id) where
  writes := represents.writes
  marks := .cons ⟨rfl, by rw [← represents.writes]; exact List.take_length.symm⟩ represents.marks
  ordered := .cons represents.within represents.ordered
  within := fun mark isMark => by
    rcases List.mem_cons.mp isMark with rfl | older
    · exact Nat.le_refl _
    · exact represents.within mark older

variable [DecidableEq Name] [DecidableEq Id] {id : Id}

/-- The checkpoints of the two are found alike, where the names tell them
apart. -/
theorem forall₂_upTo {related : Name × α → Id × β → Prop} {marks : List (Name × α)} {saved : List (Id × β)}
    (all : List.Forall₂ related marks saved) (named : ∀ mark save, related mark save → mark.1 = name save.1)
    (apart : ∀ save ∈ saved, name save.1 = name id → save.1 = id) :
    List.Forall₂ related (upTo (name id) marks) (upTo id saved) ∧
      List.Forall₂ related (marks.takeWhile fun mark => mark.1 ≠ name id) (saved.takeWhile fun save => save.1 ≠ id) := by
  induction all with
  | nil => exact ⟨.nil, .nil⟩
  | @cons mark save marks saved here all ih =>
      obtain ⟨apartHere, apartLater⟩ := List.forall_mem_cons.mp apart
      have sameName := named mark save here
      by_cases same : save.1 = id
      · have found : mark.1 = name id := by rw [sameName, same]
        simp only [upTo, List.dropWhile_cons, List.takeWhile_cons, found, same, ne_eq, not_true_eq_false, decide_false,
          Bool.false_eq_true, if_false]
        exact ⟨.cons here all, .nil⟩
      · have other : mark.1 ≠ name id := fun found => same (apartHere (sameName.symm.trans found))
        simp only [upTo, List.dropWhile_cons, List.takeWhile_cons, ne_eq, other, same, not_false_eq_true, decide_true, if_true]
        exact ⟨(ih apartLater).1, .cons here (ih apartLater).2⟩

theorem upTo_suffix (name : Name) (marks : List (Name × α)) : upTo name marks <:+ marks := List.dropWhile_suffix _

theorem Represents.restore (represents : Represents name log stack)
    (apart : ∀ save ∈ stack.saved, name save.1 = name id → save.1 = id) :
    Option.Rel (Represents name) (log.restore (name id)) (stack.restore id) := by
  have found := (forall₂_upTo represents.marks (fun _ _ related => related.1) apart).1
  have ordered := represents.ordered.sublist (upTo_suffix (name id) log.marks).sublist
  have within := fun mark isMark => represents.within mark ((upTo_suffix (name id) log.marks).subset isMark)
  unfold Log.restore Stack.restore
  revert found ordered within
  cases upTo (name id) log.marks with
  | nil =>
      intro found _ _
      rw [List.forall₂_nil_left_iff.mp found]
      exact .none
  | cons mark older =>
      intro found ordered within
      obtain ⟨save, saves, here, others, same⟩ := List.forall₂_cons_left_iff.mp found
      rw [same]
      have shorter : ∀ one ∈ mark :: older, one.2 ≤ mark.2 := by
        intro one isOne
        rcases List.mem_cons.mp isOne with rfl | isOlder
        · exact Nat.le_refl _
        · exact List.rel_of_pairwise_cons ordered isOlder
      refine .some ⟨here.2.symm, ?_, ordered, ?_⟩
      · rw [same] at found
        refine ((List.forall₂_and_left _ _).mpr ⟨shorter, found⟩).imp fun one save related => ?_
        obtain ⟨isShorter, sameName, saved⟩ := related
        exact ⟨sameName, by rw [List.take_take, Nat.min_eq_left isShorter, saved]⟩
      · intro one isOne
        rw [List.length_take]
        exact Nat.le_min.mpr ⟨shorter one isOne, within one isOne⟩

theorem without_sublist {newerStay : Bool} {name : Name} {marks left : List (Name × α)}
    (isWithout : without newerStay name marks = some left) : left.Sublist marks := by
  have split := @List.takeWhile_append_dropWhile _ (fun mark => decide (mark.1 ≠ name)) marks
  unfold without upTo at isWithout
  split at isWithout
  · cases isWithout
  · rename_i mark older found
    cases isWithout
    rw [found] at split
    have fewer : (_ ++ older).Sublist marks := split ▸ (List.sublist_cons_self mark older).append_left _
    cases newerStay with
    | true => exact fewer
    | false => exact (List.sublist_append_right _ older).trans fewer

theorem Represents.release (represents : Represents name log stack) (newerStay : Bool)
    (apart : ∀ save ∈ stack.saved, name save.1 = name id → save.1 = id) :
    Option.Rel (Represents name) (log.release newerStay (name id)) (stack.release newerStay id) := by
  obtain ⟨found, newer⟩ := forall₂_upTo represents.marks (fun _ _ related => related.1) apart
  have both : Option.Rel (List.Forall₂ fun mark save => mark.1 = name save.1 ∧ save.2 = log.writes.take mark.2)
      (without newerStay (name id) log.marks) (without newerStay id stack.saved) := by
    unfold without
    cases marks : upTo (name id) log.marks with
    | nil =>
        rw [marks] at found
        rw [List.forall₂_nil_left_iff.mp found]
        exact .none
    | cons mark older =>
        rw [marks] at found
        obtain ⟨save, saves, -, others, same⟩ := List.forall₂_cons_left_iff.mp found
        rw [same]
        cases newerStay with
        | true => exact .some (List.rel_append newer others)
        | false => exact .some others
  unfold Log.release Stack.release
  cases left : without newerStay (name id) log.marks with
  | none =>
      rw [left] at both
      cases other : without newerStay id stack.saved with
      | none => exact .none
      | some saved =>
          rw [other] at both
          cases both
  | some marks =>
      rw [left] at both
      cases other : without newerStay id stack.saved with
      | none =>
          rw [other] at both
          cases both
      | some saved =>
          rw [other] at both
          cases both with
          | some related =>
              have fewer := without_sublist left
              exact .some ⟨represents.writes, related, represents.ordered.sublist fewer,
                fun mark isMark => represents.within mark (fewer.subset isMark)⟩

end Representing

section Stacks

variable [DecidableEq Id] {stack start : Stack Id Write} {id : Id}

inductive Work (Id Write : Type) where
  | write (writes : List Write)
  | save (id : Id)
  | restore (id : Id)
  | release (id : Id)

def Work.id? : Work Id Write → Option Id
  | .write _ => none
  | .save id | .restore id | .release id => some id

/-- What names no checkpoint changes nothing. -/
def Stack.step (newerStay : Bool) (stack : Stack Id Write) : Work Id Write → Stack Id Write
  | .write writes => stack.write writes
  | .save id => stack.save id
  | .restore id => (stack.restore id).getD stack
  | .release id => (stack.release newerStay id).getD stack

/-- Where `older` has no such checkpoint. -/
theorem upTo_append {other : Id} {newer older : List (Id × α)} (absent : ∀ save ∈ older, save.1 ≠ other) :
    upTo other (newer ++ older) = if (upTo other newer).isEmpty then [] else upTo other newer ++ older := by
  have passed : older.dropWhile (fun save => decide (save.1 ≠ other)) = [] :=
    List.dropWhile_eq_nil_iff.2 fun save isOlder => decide_eq_true (absent save isOlder)
  unfold upTo
  rw [List.dropWhile_append, passed]

theorem without_append {newerStay : Bool} {other : Id} {newer older : List (Id × α)}
    (absent : ∀ save ∈ older, save.1 ≠ other) :
    without newerStay other (newer ++ older) = (without newerStay other newer).map (· ++ older) := by
  have found := @upTo_append _ _ _ other newer older absent
  unfold without
  rw [found]
  cases here : upTo other newer with
  | nil => rfl
  | cons save others =>
      simp only [List.isEmpty_cons, Bool.false_eq_true, if_false, List.cons_append, Option.map_some]
      cases newerStay with
      | false => rfl
      | true =>
          have stops : (newer.takeWhile fun save => decide (save.1 ≠ other)).length ≠ newer.length := by
            intro whole
            have nothing := @List.takeWhile_append_dropWhile _ (fun save => decide (save.1 ≠ other)) newer
            have lengths := congrArg List.length nothing
            rw [List.length_append, whole] at lengths
            change newer.dropWhile _ = _ at here
            rw [here, List.length_cons] at lengths
            omega
          rw [if_pos rfl, if_pos rfl, List.takeWhile_append, if_neg stops, List.append_assoc]

/-- The checkpoint stays, with those before it, under any work on the newer
ones. -/
theorem Stack.step_above {newerStay : Bool} {work : Work Id Write} {newer older : List (Id × List Write)}
    {save : Id × List Write} (above : stack.saved = newer ++ save :: older) (own : ∀ one ∈ newer, one.1 ≠ save.1)
    (apart : ∀ other ∈ work.id?, ∀ one ∈ save :: older, one.1 ≠ other) :
    ∃ newer, (stack.step newerStay work).saved = newer ++ save :: older ∧ ∀ one ∈ newer, one.1 ≠ save.1 := by
  cases work with
  | write writes => exact ⟨newer, above, own⟩
  | save other =>
      refine ⟨(other, stack.writes) :: newer, congrArg _ above, List.forall_mem_cons.mpr ⟨?_, own⟩⟩
      exact (apart other rfl save List.mem_cons_self).symm
  | restore other =>
      have found := @upTo_append _ _ _ other newer (save :: older) (apart other rfl)
      simp only [Stack.step, Stack.restore, above, found]
      cases here : upTo other newer with
      | nil => exact ⟨newer, above, own⟩
      | cons first others =>
          refine ⟨first :: others, rfl, fun one isOne => own one ?_⟩
          exact (upTo_suffix other newer).subset (here ▸ isOne)
  | release other =>
      have left := @without_append _ _ _ newerStay other newer (save :: older) (apart other rfl)
      simp only [Stack.step, Stack.release, above, left]
      cases here : without newerStay other newer with
      | none => exact ⟨newer, above, own⟩
      | some others => exact ⟨others, rfl, fun one isOne => own one ((without_sublist here).subset isOne)⟩

/-- Whatever is written, saved, restored and released in between, a checkpoint
restores what was held when it was saved. -/
theorem Stack.restore_after {newerStay : Bool} {works : List (Work Id Write)}
    (apart : ∀ work ∈ works, ∀ other ∈ work.id?, other ≠ id ∧ ∀ save ∈ start.saved, save.1 ≠ other) :
    (Runs.after (Stack.step newerStay) (start.save id) works).restore id = some (start.save id) := by
  have kept : ∃ newer, (Runs.after (Stack.step newerStay) (start.save id) works).saved =
      newer ++ (id, start.writes) :: start.saved ∧ ∀ one ∈ newer, one.1 ≠ id := by
    have initial : ∃ newer, (start.save id).saved = newer ++ (id, start.writes) :: start.saved ∧
        ∀ one ∈ newer, one.1 ≠ id := ⟨[], rfl, fun _ member => by cases member⟩
    revert initial
    generalize start.save id = stack
    intro initial
    induction works generalizing stack with
    | nil => exact initial
    | cons work works ih =>
        obtain ⟨here, later⟩ := List.forall_mem_cons.mp apart
        obtain ⟨newer, above, own⟩ := initial
        refine ih later _ (Stack.step_above above own fun other isOther one isOne => ?_)
        rcases List.mem_cons.mp isOne with rfl | older
        · exact (here other isOther).1.symm
        · exact (here other isOther).2 one older
  obtain ⟨newer, above, own⟩ := kept
  have passed : newer.dropWhile (fun save => decide (save.1 ≠ id)) = [] :=
    List.dropWhile_eq_nil_iff.mpr fun save isNewer => decide_eq_true (own save isNewer)
  have found : upTo id (newer ++ (id, start.writes) :: start.saved) = (id, start.writes) :: start.saved := by
    unfold upTo
    rw [List.dropWhile_append, passed]
    simp
  rw [Stack.restore, above, found]
  rfl

end Stacks

end Checkpoints
