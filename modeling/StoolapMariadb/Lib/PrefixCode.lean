import Mathlib.Data.List.Chain

namespace PrefixCode

/-! Texts written letter by letter with a prefix code, and which letters can
stand next to each other in one. -/

variable {α β : Type*} {code : α → List β}

/-- No code word is empty, and none begins another. -/
structure PrefixFree (code : α → List β) : Prop where
  nonempty : ∀ letter, code letter ≠ []
  apart : ∀ first second, code first <+: code second → first = second

/-- What a prefix code wrote can be read back. -/
theorem PrefixFree.flatMap_injective (free : PrefixFree code) :
    Function.Injective (fun text : List α => text.flatMap code) := by
  intro first second same
  induction first generalizing second with
  | nil =>
      cases second with
      | nil => rfl
      | cons letter rest =>
          have none : code letter ++ rest.flatMap code = [] := same.symm
          exact absurd (List.append_eq_nil_iff.mp none).1 (free.nonempty letter)
  | cons letter first ih =>
      cases second with
      | nil =>
          have none : code letter ++ first.flatMap code = [] := same
          exact absurd (List.append_eq_nil_iff.mp none).1 (free.nonempty letter)
      | cons other second =>
          have written : code letter ++ first.flatMap code = code other ++ second.flatMap code := same
          have begins : code letter <+: code other ++ second.flatMap code :=
            written ▸ List.prefix_append _ _
          obtain rfl : letter = other := by
            rcases List.prefix_or_prefix_of_prefix begins (List.prefix_append _ _) with shorter | longer
            · exact free.apart _ _ shorter
            · exact (free.apart _ _ longer).symm
          rw [ih (List.append_cancel_left written)]

/-- Neighbours stay related across code words when the last letter of a word
is related to every letter. -/
theorem isChain_flatMap {next : β → β → Prop} (inside : ∀ letter, (code letter).IsChain next)
    (across : ∀ letter, ∀ last ∈ (code letter).getLast?, ∀ other, next last other) (text : List α) :
    (text.flatMap code).IsChain next := by
  induction text with
  | nil => exact List.IsChain.nil
  | cons letter text ih =>
      rw [List.flatMap_cons, List.isChain_append]
      exact ⟨inside letter, ih, fun last isLast other _ => across letter last isLast other⟩

/-- Two neighbours in a chain are related. -/
theorem related_of_isChain {next : β → β → Prop} {before after : List β} {first second : β}
    (chain : (before ++ first :: second :: after).IsChain next) : next first second :=
  (List.isChain_append_cons_cons.mp chain).2.1

end PrefixCode
