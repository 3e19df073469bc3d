import StoolapMariadb.SqlGen.ReadBack

namespace StoolapMariadb.SqlGen

/-! The item trees that MariaDB prepares, and the operands of their minus
signs. -/

open Spelling

/-- A number as it is printed: its digits, those of its fraction, and the sign
and digits of its exponent. -/
structure Numeral where
  negative : Bool
  whole : List Char
  fraction : Option (List Char)
  exponent : Option (Char × List Char)
  some_ : whole ≠ []
  wholeDigits : ∀ c ∈ whole, c.isDigit = true
  fractionDigits : ∀ digits ∈ fraction, ∀ c ∈ digits, c.isDigit = true
  exponentDigits : ∀ power ∈ exponent, (power.1 = '+' ∨ power.1 = '-') ∧ ∀ c ∈ power.2, c.isDigit = true

namespace Numeral

def fractionChars : Option (List Char) → List Char
  | none => []
  | some digits => '.' :: digits

def exponentChars : Option (Char × List Char) → List Char
  | none => []
  | some (mark, digits) => 'e' :: mark :: digits

/-- Without its sign. -/
def unsigned (n : Numeral) : List Char := n.whole ++ (fractionChars n.fraction ++ exponentChars n.exponent)

def text (n : Numeral) : String := String.ofList (if n.negative then '-' :: n.unsigned else n.unsigned)

variable (n : Numeral)

theorem ascii : ∀ c ∈ n.unsigned, c.utf8Size = 1 := by
  have digits {chars : List Char} (all : ∀ c ∈ chars, c.isDigit = true) : ∀ c ∈ chars, c.utf8Size = 1 :=
    fun c member => (digit_byte (all c member)).1
  refine List.forall_mem_append.mpr ⟨digits n.wholeDigits, List.forall_mem_append.mpr ⟨?_, ?_⟩⟩
  · cases fraction : n.fraction with
    | none => simp [fractionChars]
    | some more => exact List.forall_mem_cons.mpr ⟨rfl, digits (n.fractionDigits more fraction)⟩
  · cases exponent : n.exponent with
    | none => simp [exponentChars]
    | some power =>
        obtain ⟨mark, more⟩ := power
        obtain ⟨isMark, all⟩ := n.exponentDigits _ exponent
        refine List.forall_mem_cons.mpr ⟨rfl, List.forall_mem_cons.mpr ⟨?_, digits all⟩⟩
        rcases isMark with rfl | rfl <;> rfl

theorem bytes_digits {chars : List Char} (digits : ∀ c ∈ chars, c.isDigit = true) :
    ∀ b ∈ chars.map (fun c => c.val.toUInt8), Lexer.isDigit b = true := by
  intro b member
  obtain ⟨c, isIn, rfl⟩ := List.mem_map.mp member
  exact (digit_byte (digits c isIn)).2

theorem fraction_phase : ∃ phase : Lexer.Phase, phase.next 0x65 = some .exponent ∧
    ((fractionChars n.fraction).map fun c => c.val.toUInt8).foldlM Lexer.Phase.next .whole = some phase := by
  cases fraction : n.fraction with
  | none => exact ⟨.whole, rfl, rfl⟩
  | some digits =>
      refine ⟨.fraction, rfl, ?_⟩
      rw [fractionChars, List.map_cons, List.foldlM_cons]
      exact phase_digits (by decide) (bytes_digits (n.fractionDigits digits fraction))

theorem exponent_phase {phase : Lexer.Phase} (next : phase.next 0x65 = some .exponent) :
    (((exponentChars n.exponent).map fun c => c.val.toUInt8).foldlM Lexer.Phase.next phase).isSome = true := by
  cases exponent : n.exponent with
  | none => rfl
  | some power =>
      obtain ⟨mark, digits⟩ := power
      obtain ⟨isMark, all⟩ := n.exponentDigits _ exponent
      have power : Lexer.Phase.next .exponent mark.val.toUInt8 = some .power := by
        rcases isMark with rfl | rfl <;> rfl
      have first : phase.next 'e'.val.toUInt8 = some .exponent := next
      rw [exponentChars, List.map_cons, List.foldlM_cons, first, List.map_cons]
      change (List.foldlM Lexer.Phase.next Lexer.Phase.exponent (mark.val.toUInt8 :: _)).isSome = true
      rw [List.foldlM_cons, power]
      change (List.foldlM Lexer.Phase.next Lexer.Phase.power _).isSome = true
      rw [phase_digits (by decide) (bytes_digits all)]
      rfl

/-- The digits are one token. -/
theorem valid : (Tok.number (String.ofList n.unsigned)).Valid := by
  change (Lexer.numberPhase (utf8 (String.ofList n.unsigned))).isSome = true
  rw [utf8_ascii n.ascii, unsigned, List.map_append, List.map_append]
  cases whole : n.whole with
  | nil => exact absurd whole n.some_
  | cons c more =>
      have digits := bytes_digits n.wholeDigits
      rw [whole] at digits
      obtain ⟨here, later⟩ := List.forall_mem_cons.mp digits
      obtain ⟨phase, next, fraction⟩ := n.fraction_phase
      rw [List.map_cons, List.cons_append, Lexer.numberPhase, if_pos here, List.foldlM_append,
        phase_digits (by decide) later]
      change (List.foldlM Lexer.Phase.next Lexer.Phase.whole _).isSome = true
      rw [List.foldlM_append, fraction]
      exact n.exponent_phase next

theorem unsigned_first : ∃ c more, n.unsigned = c :: more ∧ c ≠ '-' := by
  cases whole : n.whole with
  | nil => exact absurd whole n.some_
  | cons c more =>
      refine ⟨c, more ++ (fractionChars n.fraction ++ exponentChars n.exponent), by rw [unsigned, whole]; rfl, ?_⟩
      rintro rfl
      have digit := n.wholeDigits '-' (by rw [whole]; exact List.mem_cons_self)
      cases digit

/-- What is printed is read as a number, with its sign. -/
theorem numberText : NumberText n.text := by
  have chars : n.text.toList = if n.negative then '-' :: n.unsigned else n.unsigned := String.toList_ofList
  cases minus : n.negative with
  | true =>
      rw [minus, if_pos rfl] at chars
      have pieces : signed n.text = [sign .minus, some (.number (String.ofList n.unsigned))] := by
        rw [signed, chars]
        rfl
      rw [NumberText, pieces]
      simpa [toks, sign] using n.valid
  | false =>
      rw [minus, if_neg Bool.false_ne_true] at chars
      obtain ⟨c, more, first, other⟩ := n.unsigned_first
      have same : n.text = String.ofList n.unsigned := by rw [text, minus, if_neg Bool.false_ne_true]
      have pieces : signed n.text = [some (.number n.text)] := by
        unfold signed
        rw [chars, first]
        split
        · rename_i isMinus
          exact absurd (List.cons.inj isMinus).1 other
        · rfl
      rw [NumberText, pieces, same]
      simpa [toks] using n.valid

theorem isSigned_text : isSigned n.text = n.negative := by
  have chars : n.text.toList = if n.negative then '-' :: n.unsigned else n.unsigned := String.toList_ofList
  obtain ⟨c, more, first, other⟩ := n.unsigned_first
  rw [isSigned, chars]
  cases n.negative with
  | true => rfl
  | false => simpa [first] using other

/-- With `.0` for its fraction. -/
def withPoint : Numeral := { n with fraction := some ['0'], fractionDigits := by simp }

theorem unsigned_text {c : Char} (member : c ∈ n.unsigned) : c ∈ n.text.toList := by
  rw [text, String.toList_ofList]
  split
  · exact List.mem_cons_of_mem _ member
  · exact member

theorem fraction_none (absent : '.' ∉ n.text.toList) : n.fraction = none := by
  cases fraction : n.fraction with
  | none => rfl
  | some digits => exact absurd (n.unsigned_text (by simp [unsigned, fraction, fractionChars])) absent

theorem exponent_none (absent : 'e' ∉ n.text.toList) : n.exponent = none := by
  cases exponent : n.exponent with
  | none => rfl
  | some power => exact absurd (n.unsigned_text (by simp [unsigned, exponent, exponentChars])) absent

theorem text_withPoint (noFraction : n.fraction = none) (noExponent : n.exponent = none) :
    n.text ++ ".0" = n.withPoint.text := by
  rw [← String.toList_inj]
  cases minus : n.negative <;>
    simp [text, unsigned, withPoint, noFraction, noExponent, minus, fractionChars, exponentChars]

end Numeral

/-- A literal whose digits are printed ones, without an exponent for a
decimal. -/
def Literal.Formed : Literal → Prop
  | .real finite digits => finite = true → ∃ n : Numeral, digits = n.text
  | .decimal digits => ∃ n : Numeral, n.exponent = none ∧ digits = n.text
  | .int _ | .string _ _ _ | .temporal _ _ _ => True

/-- A number that is written with a minus sign. -/
def Literal.signed : Literal → Bool
  | .int value => value < 0
  | .real _ digits | .decimal digits => isSigned digits
  | .string _ _ _ | .temporal _ _ _ => false

def Item.signed (it : Item) : Bool :=
  match it.realItem with
  | .const _ literal => literal.signed
  | _ => false

/-- What a minus sign may stand before: no number with its own, unless it is
cast. -/
def Item.Plain (it : Item) : Prop := it.signed = true → it.isBoolType = true

section Formed

variable (ok : Item → Prop)

/-- The arguments MariaDB's parser asks of a function; `ok` holds of what a
minus sign is before. -/
def FuncType.Formed : FuncType → List Item → Prop
  | .neg, [x] => ok x
  | .named .concat, args => args ≠ []
  | _, _ => True

mutual

def Item.Formed : Item → Prop
  | .const _ literal => literal.Formed
  | .ref _ _ _ target => OptionFormed target
  | .func _ _ type args => type.Formed ok args ∧ ItemsFormed args
  | .cond _ _ args | .sum _ _ args => ItemsFormed args
  | .window _ _ args partition order _ => ItemsFormed args ∧ OrdersFormed partition ∧ OrdersFormed order
  | .subselect _ _ left unit => OptionFormed left ∧ unit.Formed
  | .field _ _ | .null _ | .param _ | .other _ => True

def OptionFormed : Option Item → Prop
  | none => True
  | some it => it.Formed

def ItemsFormed : List Item → Prop
  | [] => True
  | it :: items => it.Formed ∧ ItemsFormed items

def OrdersFormed : List Order → Prop
  | [] => True
  | .mk it _ :: keys => it.Formed ∧ OrdersFormed keys

/-- A SELECT has a column. -/
def Select.Formed : Select → Prop
  | .mk _ tables items filter groupList having orderList =>
      TablesFormed tables ∧ (items ≠ [] ∧ ItemsFormed items) ∧ OptionFormed filter ∧ OrdersFormed groupList ∧
        OptionFormed having ∧ OrdersFormed orderList

def SelectsFormed : List Select → Prop
  | [] => True
  | select :: selects => select.Formed ∧ SelectsFormed selects

def SelectUnit.Formed : SelectUnit → Prop
  | .mk selects _ _ _ _ _ _ => SelectsFormed selects

def TablesFormed : List TableList → Prop
  | [] => True
  | .mk kind on _ _ :: tables => (kind.Formed ∧ OptionFormed on) ∧ TablesFormed tables

def TableKind.Formed : TableKind → Prop
  | .derived _ unit _ _ => unit.Formed
  | .nested tables => TablesFormed tables
  | .base _ _ | .unopened => True

end

/-- An UPDATE sets a column. -/
def ModifySelect.Formed (update : Bool) (sel : ModifySelect) (filter : Option Item) : Prop :=
  (update = true → sel.targets ≠ []) ∧ ItemsFormed ok sel.values ∧ OptionFormed ok filter

end Formed

end StoolapMariadb.SqlGen
