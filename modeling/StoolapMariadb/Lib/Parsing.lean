import Mathlib.Data.List.Basic

namespace Parsing

/-! Parsers of tokens that recurse by fuel, and what they read with enough of
it. -/

abbrev Parser (τ α : Type) := StateT (List τ) Option α

variable {τ α β γ : Type}

def peek : Parser τ (Option τ) := fun tokens => some (tokens.head?, tokens)

def next : Parser τ τ
  | [] => none
  | token :: rest => some (token, rest)

section Combinators

variable [DecidableEq τ]

def expect (token : τ) : Parser τ Unit := do
  if (← next) = token then return () else failure

/-- What a token announces, if it is there. -/
def optionally (token : τ) (one : Parser τ α) : Parser τ (Option α) := do
  if (← peek) = some token then
    expect token
    return some (← one)
  else return none

/-- As long as what follows begins so. -/
def many (begins : Option τ → Bool) (one : Parser τ α) : Nat → Parser τ (List α)
  | 0 => failure
  | fuel + 1 => do
      if begins (← peek) then return (← one) :: (← many begins one fuel) else return []

/-- One or more, with a separator between them. -/
def separated (separator : τ) (one : Parser τ α) (fuel : Nat) : Parser τ (List α) := do
  return (← one) :: (← many (fun token => token = some separator) (do expect separator; one) fuel)

end Combinators

/-- With enough fuel the parser reads the value and leaves the rest. -/
def Reads (parser : Nat → Parser τ α) (tokens : List τ) (value : α) (rest : List τ) : Prop :=
  ∃ least, ∀ fuel, least ≤ fuel → parser fuel tokens = some (value, rest)

section Reads

variable {parser other : Nat → Parser τ α} {after : α → Nat → Parser τ β} {tokens middle rest : List τ} {value : α}
  {result : β} {token : τ}

/-- A parser without fuel. -/
theorem Reads.always {one : Parser τ α} (read : one tokens = some (value, rest)) :
    Reads (fun _ => one) tokens value rest :=
  ⟨0, fun _ _ => read⟩

theorem Reads.pure : Reads (fun _ => (Pure.pure value : Parser τ α)) tokens value tokens := .always rfl

theorem Reads.bind (first : Reads parser tokens value middle) (later : Reads (after value) middle result rest) :
    Reads (fun fuel => parser fuel >>= fun a => after a fuel) tokens result rest := by
  obtain ⟨least, reads⟩ := first
  obtain ⟨more, readsLater⟩ := later
  refine ⟨max least more, fun fuel enough => ?_⟩
  change (parser fuel tokens).bind (fun read => after read.1 fuel read.2) = _
  rw [reads fuel (Nat.le_trans (Nat.le_max_left ..) enough), Option.bind_some]
  exact readsLater fuel (Nat.le_trans (Nat.le_max_right ..) enough)

/-- A call with one unit of fuel less, up to what it does first. -/
theorem Reads.step (step : ∀ fuel, parser (fuel + 1) tokens = other fuel middle)
    (reads : Reads other middle value rest) : Reads parser tokens value rest := by
  obtain ⟨least, reads⟩ := reads
  refine ⟨least + 1, fun fuel enough => ?_⟩
  cases fuel with
  | zero => omega
  | succ fuel =>
      rw [step]
      exact reads fuel (by omega)

theorem Reads.call (step : ∀ fuel, parser (fuel + 1) = other fuel) (reads : Reads other tokens value rest) :
    Reads parser tokens value rest :=
  .step (fun fuel => congrFun (step fuel) tokens) reads

theorem Reads.peek {after : Option τ → Nat → Parser τ β} (later : Reads (after tokens.head?) tokens result rest) :
    Reads (fun fuel => Parsing.peek >>= fun a => after a fuel) tokens result rest :=
  .bind (.always rfl) later

theorem Reads.next {after : τ → Nat → Parser τ β} (later : Reads (after token) tokens result rest) :
    Reads (fun fuel => Parsing.next >>= fun a => after a fuel) (token :: tokens) result rest :=
  .bind (.always rfl) later

theorem Reads.ifTrue {condition : Prop} [Decidable condition] (holds : condition)
    (reads : Reads parser tokens value rest) :
    Reads (fun fuel => if condition then parser fuel else other fuel) tokens value rest := by
  simp only [if_pos holds]
  exact reads

theorem Reads.ifFalse {condition : Prop} [Decidable condition] (fails : ¬ condition)
    (reads : Reads other tokens value rest) :
    Reads (fun fuel => if condition then parser fuel else other fuel) tokens value rest := by
  simp only [if_neg fails]
  exact reads

/-- The last step of a parser. -/
theorem Reads.map {make : α → β} (reads : Reads parser tokens value rest) :
    Reads (fun fuel => parser fuel >>= fun a => Pure.pure (make a)) tokens (make value) rest :=
  .bind reads .pure

variable [DecidableEq τ]

theorem Reads.expect {after : Nat → Parser τ β} (later : Reads after tokens result rest) :
    Reads (fun fuel => Parsing.expect token >>= fun _ => after fuel) (token :: tokens) result rest := by
  have there : Reads (fun _ => Parsing.expect token) (token :: tokens) () tokens := by
    refine ⟨0, fun _ _ => ?_⟩
    change (if token = token then Pure.pure () else failure : Parser τ Unit) tokens = _
    rw [if_pos rfl]
    rfl
  exact there.bind later

theorem Reads.optionally {one : Nat → Parser τ α} (reads : Reads one tokens value rest) :
    Reads (fun fuel => Parsing.optionally token (one fuel)) (token :: tokens) (some value) rest :=
  .peek (.ifTrue rfl (.expect (.map reads)))

theorem Reads.notThere {one : Nat → Parser τ α} (other : tokens.head? ≠ some token) :
    Reads (fun fuel => Parsing.optionally token (one fuel)) tokens none tokens :=
  .peek (.ifFalse other .pure)

/-- What is read one after another while it begins so. -/
inductive Each (begins : Option τ → Bool) (one : Nat → Parser τ α) : List τ → List α → List τ → Prop where
  | nil {tokens : List τ} (ends : begins tokens.head? = false) : Each begins one tokens [] tokens
  | cons {tokens middle rest : List τ} {value : α} {values : List α} (begun : begins tokens.head? = true)
      (first : Reads one tokens value middle) (later : Each begins one middle values rest) :
      Each begins one tokens (value :: values) rest

omit [DecidableEq τ] in
/-- By induction on what is read. -/
theorem Each.reads {begins : Option τ → Bool} {one : Nat → Parser τ α} {values : List α}
    (each : Each begins one tokens values rest) :
    Reads (fun fuel => many begins (one fuel) fuel) tokens values rest := by
  have counted : ∃ least, ∀ fuel count, least ≤ fuel → least ≤ count →
      many begins (one fuel) count tokens = some (values, rest) := by
    induction each with
    | nil ends =>
        refine ⟨1, fun fuel count _ enough => ?_⟩
        obtain ⟨count, rfl⟩ := Nat.exists_eq_add_of_le' enough
        change (if begins _ = true then _ else Pure.pure [] : Parser τ (List α)) _ = _
        rw [ends]
        rfl
    | @cons tokens middle rest value values begun first later ih =>
        obtain ⟨least, reads⟩ := first
        obtain ⟨more, readsLater⟩ := ih
        refine ⟨max least more + 1, fun fuel count enough counts => ?_⟩
        obtain ⟨count, rfl⟩ := Nat.exists_eq_add_of_le' (Nat.le_trans (Nat.le_add_left ..) counts)
        have here := reads fuel (by omega)
        have there := readsLater fuel count (by omega) (by omega)
        change (if begins tokens.head? = true then _ else _ : Parser τ (List α)) _ = _
        rw [if_pos begun]
        change (one fuel tokens).bind (fun read =>
          (many begins (one fuel) count read.2).bind fun others => some (read.1 :: others.1, others.2)) = _
        rw [here, Option.bind_some, there]
        rfl
  obtain ⟨least, reads⟩ := counted
  exact ⟨least, fun fuel enough => reads fuel fuel enough enough⟩

/-- One, and then others behind their separators. -/
theorem Reads.separated {separator : τ} {one : Nat → Parser τ α} {values : List α} (first : Reads one tokens value middle)
    (later : Each (fun token => token = some separator)
      (fun fuel => do Parsing.expect separator; one fuel) middle values rest) :
    Reads (fun fuel => Parsing.separated separator (one fuel) fuel) tokens (value :: values) rest :=
  .bind first (.map later.reads)

/-- Parts behind separators, of which each is read before a separator and at the
end. -/
theorem separated_reads {separator : τ} {one : Nat → Parser τ β} (write : γ → List τ) {value : γ → β}
    {ends : List τ → Prop} {a : γ} {all : List γ}
    (each : ∀ b ∈ a :: all, ∀ rest, ends rest → Reads one (write b ++ rest) (value b) rest)
    (before : ∀ rest, ends (separator :: rest)) (last : ends rest) (noMore : rest.head? ≠ some separator) :
    Reads (fun fuel => separated separator (one fuel) fuel)
      (write a ++ (all.flatMap (fun a => separator :: write a) ++ rest)) ((a :: all).map value) rest := by
  have next (later : List γ) : ends (later.flatMap (fun a => separator :: write a) ++ rest) := by
    cases later with
    | nil => exact last
    | cons b later => exact before _
  have more (later : List γ) (each : ∀ a ∈ later, ∀ rest, ends rest → Reads one (write a ++ rest) (value a) rest) :
      Each (fun token => token = some separator) (fun fuel => do Parsing.expect separator; one fuel)
        (later.flatMap (fun a => separator :: write a) ++ rest) (later.map value) rest := by
    induction later with
    | nil => exact .nil (by simpa using noMore)
    | cons b later ih =>
        obtain ⟨here, others⟩ := List.forall_mem_cons.mp each
        rw [List.flatMap_cons, List.append_assoc, List.cons_append]
        exact .cons (by simp) (.expect (here _ (next later))) (ih others)
  obtain ⟨here, others⟩ := List.forall_mem_cons.mp each
  exact .separated (here _ (next all)) (more all others)

end Reads

end Parsing
