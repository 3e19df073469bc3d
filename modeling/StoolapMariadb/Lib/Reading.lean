import StoolapMariadb.Lib.StateExcept
import Mathlib.Data.List.Infix

namespace Reading

/-! Reading a buffer from a position on. What a format's reads give back of
what was written, and that they fail where the buffer ends early. -/

variable {symbol ε α β : Type}

/-- A read of a buffer, which moves the position. -/
abbrev Read (symbol ε α : Type) := List symbol → StateT Nat (Except ε) α

/-- The read gives the value of the symbols wherever they stand, and `fault`
where the buffer ends before they do. -/
structure Codes (fault : ε) (read : Read symbol ε α) (symbols : List symbol) (a : α) : Prop where
  whole : ∀ before after, read (before ++ symbols ++ after) before.length = .ok (a, before.length + symbols.length)
  cut : ∀ before part, part <+: symbols → part ≠ symbols → read (before ++ part) before.length = .error fault

variable {fault : ε} {read : Read symbol ε α} {symbols more : List symbol} {a : α} {b : β}

theorem Codes.pure (fault : ε) (a : α) : Codes fault (fun _ : List symbol => Pure.pure a) [] a where
  whole _ _ := rfl
  cut _ _ begins proper := (proper (List.prefix_nil.mp begins)).elim

/-- A part of two texts in a row ends in the first or in the second. -/
theorem cut_append {part : List symbol} (begins : part <+: symbols ++ more) :
    (part <+: symbols ∧ part ≠ symbols) ∨ ∃ rest, part = symbols ++ rest ∧ rest <+: more := by
  rcases List.prefix_or_prefix_of_prefix begins (List.prefix_append symbols more) with shorter | longer
  · by_cases whole : part = symbols
    · exact .inr ⟨[], by rw [whole, List.append_nil], List.nil_prefix⟩
    · exact .inl ⟨shorter, whole⟩
  · obtain ⟨rest, rfl⟩ := longer
    exact .inr ⟨rest, rfl, (List.prefix_append_right_inj symbols).mp begins⟩

theorem Codes.bind {next : α → Read symbol ε β} (first : Codes fault read symbols a)
    (rest : Codes fault (next a) more b) :
    Codes fault (fun buffer => read buffer >>= fun a => next a buffer) (symbols ++ more) b where
  whole before after := by
    have here := first.whole before (more ++ after)
    have later := rest.whole (before ++ symbols) after
    simp only [← List.append_assoc, List.length_append] at here later ⊢
    rw [StateExcept.bind_ok]
    exact ⟨a, _, here, by rw [later, Nat.add_assoc]⟩
  cut before part begins proper := by
    change (read (before ++ part) before.length >>= fun result => next result.1 (before ++ part) result.2) = _
    rcases cut_append begins with ⟨inFirst, short⟩ | ⟨tail, rfl, inRest⟩
    · rw [first.cut before part inFirst short]
      rfl
    · have here := first.whole before tail
      have later := rest.cut (before ++ symbols) tail inRest fun same => proper (by rw [same])
      simp only [List.append_assoc, List.length_append] at here later ⊢
      rw [here]
      exact later

theorem Codes.map (f : α → β) (codes : Codes fault read symbols a) :
    Codes fault (fun buffer => f <$> read buffer) symbols (f a) where
  whole before after := StateExcept.map_ok.mpr ⟨a, codes.whole before after, rfl⟩
  cut before part begins proper := by
    change (read (before ++ part) before.length >>= fun result => Except.ok (f result.1, result.2)) = _
    rw [codes.cut before part begins proper]
    rfl

/-- Reads one after another, up to the first that fails: what they gave, and
how the last one ended. -/
def readEach (buffer : List symbol) : List (Read symbol ε α) → Nat → List α × Except ε Nat
  | [], position => ([], .ok position)
  | read :: reads, position =>
      match read buffer position with
      | .error why => ([], .error why)
      | .ok (a, next) =>
          let (rest, last) := readEach buffer reads next
          (a :: rest, last)

section Each

variable {ι : Type} {reads : ι → Read symbol ε α} {code : ι → List symbol} {value : ι → α} {items : List ι}

theorem readEach_whole (codes : ∀ item ∈ items, Codes fault (reads item) (code item) (value item))
    (before after : List symbol) :
    readEach (before ++ items.flatMap code ++ after) (items.map reads) before.length =
      (items.map value, .ok (before.length + (items.flatMap code).length)) := by
  induction items generalizing before with
  | nil => rfl
  | cons item items ih =>
      obtain ⟨first, rest⟩ := List.forall_mem_cons.mp codes
      have here := first.whole before (items.flatMap code ++ after)
      have later := ih rest (before ++ code item)
      simp only [List.flatMap_cons, List.map_cons, readEach, List.append_assoc, List.length_append] at here later ⊢
      simp only [here, later, Nat.add_assoc]

/-- Where the buffer ends within an item, the items before it are read. -/
theorem readEach_cut (codes : ∀ item ∈ items, Codes fault (reads item) (code item) (value item))
    (before : List symbol) {part : List symbol} (begins : part <+: items.flatMap code)
    (proper : part ≠ items.flatMap code) :
    ∃ count < items.length, ((items.take count).flatMap code).length ≤ part.length ∧
      part.length < ((items.take (count + 1)).flatMap code).length ∧
      readEach (before ++ part) (items.map reads) before.length = ((items.take count).map value, .error fault) := by
  induction items generalizing before part with
  | nil => exact (proper (List.prefix_nil.mp begins)).elim
  | cons item items ih =>
      obtain ⟨first, rest⟩ := List.forall_mem_cons.mp codes
      rw [List.flatMap_cons] at begins proper
      rcases cut_append begins with ⟨inFirst, short⟩ | ⟨tail, rfl, inRest⟩
      · refine ⟨0, Nat.succ_pos _, Nat.zero_le _, ?_, ?_⟩
        · have shorter := inFirst.length_le
          have differ : part.length ≠ (code item).length := fun same => short (inFirst.eq_of_length same)
          simp only [List.take_succ_cons, List.take_zero, List.flatMap_cons, List.flatMap_nil, List.append_nil]
          omega
        · simp only [List.map_cons, readEach, first.cut before part inFirst short, List.take_zero, List.map_nil]
      · have here := first.whole before tail
        obtain ⟨count, below, least, most, later⟩ :=
          ih rest (before ++ code item) inRest fun same => proper (by rw [same])
        simp only [List.append_assoc, List.length_append] at here later
        refine ⟨count + 1, Nat.succ_lt_succ below, ?_, ?_, ?_⟩
        · simp only [List.take_succ_cons, List.flatMap_cons, List.length_append]
          omega
        · simp only [List.take_succ_cons, List.flatMap_cons, List.length_append] at most ⊢
          omega
        · simp only [List.map_cons, readEach, here, later, List.take_succ_cons]

end Each

end Reading
