import StoolapMariadb.Lib.Lexer
import StoolapMariadb.Lib.Parsing
import StoolapMariadb.Lib.Utf8

namespace StoolapMariadb.Spelling

/-! Texts put together from words, numbers and quoted names with symbols and
spaces between them, and the tokens they are read as. -/

open Lexer (Token Piece Phase Fits)

section Numbers

theorem digit_byte {c : Char} (digit : c.isDigit = true) : c.utf8Size = 1 ∧ Lexer.isDigit c.val.toUInt8 = true := by
  have bounds : 48 ≤ c.val.toNat ∧ c.val.toNat ≤ 57 := by
    simpa [Char.isDigit, UInt32.le_iff_toNat_le] using digit
  have ascii : c.utf8Size = 1 := Char.utf8Size_eq_one_iff.mpr (by
    rw [UInt32.le_iff_toNat_le]
    exact Nat.le_trans bounds.2 (by decide))
  obtain ⟨value, -⟩ := Utf8.toNat_toUInt8_of_ascii ascii
  refine ⟨ascii, ?_⟩
  simp only [Lexer.isDigit, Bool.and_eq_true, decide_eq_true_eq, UInt8.le_iff_toNat_le, value]
  exact bounds

/-- The bytes of a number without a sign. -/
theorem utf8_repr (n : Nat) :
    ∃ byte rest, utf8 (toString n) = byte :: rest ∧ ∀ b ∈ byte :: rest, Lexer.isDigit b = true := by
  have digits : ∀ c ∈ Nat.toDigits 10 n, c.isDigit = true := fun c member =>
    Nat.isDigit_of_mem_toDigits (by decide) (by decide) member
  have bytes : utf8 (toString n) = (Nat.toDigits 10 n).map fun c => c.val.toUInt8 :=
    utf8_ascii fun c member => (digit_byte (digits c member)).1
  have all : ∀ b ∈ utf8 (toString n), Lexer.isDigit b = true := by
    intro b member
    rw [bytes] at member
    obtain ⟨source, sourceIn, rfl⟩ := List.mem_map.mp member
    exact (digit_byte (digits source sourceIn)).2
  cases chars : Nat.toDigits 10 n with
  | nil => exact absurd chars Nat.toDigits_ne_nil
  | cons c rest =>
      rw [chars] at bytes
      exact ⟨_, _, bytes, fun b member => all b (by rw [bytes]; exact member)⟩

/-- Digits go on with any part of a number but a sign after its `e`. -/
theorem phase_digits {phase : Lexer.Phase} (other : phase ≠ .exponent) {bytes : List UInt8}
    (digits : ∀ b ∈ bytes, Lexer.isDigit b = true) : bytes.foldlM Lexer.Phase.next phase = some phase := by
  induction bytes with
  | nil => rfl
  | cons byte bytes ih =>
      obtain ⟨here, later⟩ := List.forall_mem_cons.mp digits
      have stays : phase.next byte = some phase := by
        cases phase with
        | exponent => exact absurd rfl other
        | whole | fraction | power => simp [Lexer.Phase.next, here]
      rw [List.foldlM_cons, stays]
      exact ih later

theorem numberPhase_repr (n : Nat) : (Lexer.numberPhase (utf8 (toString n))).isSome = true := by
  obtain ⟨byte, rest, bytes, digits⟩ := utf8_repr n
  obtain ⟨here, later⟩ := List.forall_mem_cons.mp digits
  rw [bytes, Lexer.numberPhase, if_pos here, phase_digits (by decide) later]
  rfl

end Numbers

/-- A space, or a symbol that goes on with nothing. -/
def soft : Piece → Bool
  | none | some (.symbol .lparen) | some (.symbol .rparen) | some (.symbol .comma) | some (.symbol .eq)
  | some (.symbol .dollar) => true
  | some _ => false

/-- A soft piece, or a token that is no symbol. -/
def Told : Piece → Prop
  | some (.symbol s) => soft (some (.symbol s)) = true
  | piece => piece.Valid

/-- Of two pieces next to each other one is soft. -/
def Apart (left right : Piece) : Prop := soft left = true ∨ soft right = true

instance : DecidableRel Apart := fun _ _ => inferInstanceAs (Decidable (_ ∨ _))

section Apart

variable {left right piece : Piece} {pieces : List Piece}

theorem Told.valid (told : Told piece) : piece.Valid := by
  rcases piece with _ | s | bytes | bytes | ⟨mark, bytes⟩
  · exact told
  · rintro token ⟨⟩
    trivial
  · exact told
  · exact told
  · exact told

theorem phase_soft (phase : Phase) {byte : UInt8} (among : byte ∈ [0x20, 0x28, 0x29, 0x2C, 0x3D, 0x24]) :
    phase.next byte = none := by
  simp only [List.mem_cons, List.not_mem_nil, or_false] at among
  rcases among with rfl | rfl | rfl | rfl | rfl | rfl <;> cases phase <;> decide

theorem soft_byte (isSoft : soft right = true) {byte : UInt8} (first : byte ∈ right.text.head?) :
    byte ∈ [0x20, 0x28, 0x29, 0x2C, 0x3D, 0x24] := by
  rcases right with _ | s | bytes | bytes | ⟨mark, bytes⟩
  · cases first
    decide
  · cases s <;> first | (cases first; decide) | cases isSoft
  all_goals cases isSoft

theorem Apart.fits (apart : Apart left right) (told : Told left) : Fits left right := by
  intro byte first
  rcases apart with isSoft | isSoft
  · rcases left with _ | s | bytes | bytes | ⟨mark, bytes⟩
    · rfl
    · cases s <;> first | rfl | cases isSoft
    all_goals cases isSoft
  · have among := soft_byte isSoft first
    rcases left with _ | s | bytes | bytes | ⟨mark, bytes⟩
    · rfl
    · cases s <;> first | rfl | cases told
    · change Lexer.isWordByte byte = false
      simp only [List.mem_cons, List.not_mem_nil, or_false] at among
      rcases among with rfl | rfl | rfl | rfl | rfl | rfl <;> decide
    · change ((((Lexer.numberPhase bytes).getD .whole)).next byte).isSome = false
      rw [phase_soft _ among]
      rfl
    · change decide (byte = mark.byte) = false
      simp only [List.mem_cons, List.not_mem_nil, or_false] at among
      cases mark <;> rcases among with rfl | rfl | rfl | rfl | rfl | rfl <;> decide

theorem lex_apart (told : ∀ piece ∈ pieces, Told piece) (apart : pieces.IsChain Apart) :
    Lexer.lex (Lexer.text pieces) = some (Lexer.tokens pieces) := by
  refine Lexer.lex_text (fun piece member => (told piece member).valid) ?_
  induction pieces with
  | nil => exact .nil
  | cons piece pieces ih =>
      obtain ⟨here, later⟩ := List.forall_mem_cons.mp told
      obtain ⟨next, others⟩ := List.isChain_cons.mp apart
      exact List.isChain_cons.mpr ⟨fun right isNext => (next right isNext).fits here, ih later others⟩

end Apart

def word (text : String) : Token := .word (utf8 text)

def ident (text : String) : Token := .quoted .ident (utf8 text)

/-- A text by pieces that are read one by one. -/
structure Pieced (text : String) (pieces : List Piece) : Prop where
  same : utf8 text = Lexer.text pieces
  told : ∀ piece ∈ pieces, Told piece
  apart : pieces.IsChain Apart

def Opening (pieces : List Piece) : Prop := ∀ piece ∈ pieces.head?, soft piece = true

def Closing (pieces : List Piece) : Prop := ∀ piece ∈ pieces.getLast?, soft piece = true

/-- The text is read as the tokens. -/
def Spells (text : String) (spelled : List Token) : Prop :=
  ∃ pieces, Pieced text pieces ∧ Lexer.tokens pieces = spelled

/-- And it may follow any piece. -/
def Opens (text : String) (spelled : List Token) : Prop :=
  ∃ pieces, Pieced text pieces ∧ Opening pieces ∧ Lexer.tokens pieces = spelled

section Spells

variable {left right : String} {before after : List Token} {first second : List Piece}

theorem Pieced.append (left_ : Pieced left first) (right_ : Pieced right second)
    (meet : Closing first ∨ Opening second) : Pieced (left ++ right) (first ++ second) where
  same := by
    rw [utf8_append, left_.same, right_.same]
    exact List.flatMap_append.symm
  told piece member := (List.mem_append.mp member).elim (left_.told piece) (right_.told piece)
  apart := by
    refine List.isChain_append.mpr ⟨left_.apart, right_.apart, fun last isLast next isNext => ?_⟩
    exact meet.imp (fun closing => closing last isLast) (fun opening => opening next isNext)

theorem tokens_append (first second : List Piece) :
    Lexer.tokens (first ++ second) = Lexer.tokens first ++ Lexer.tokens second := List.filterMap_append

theorem Spells.lex (spells : Spells left before) : Lexer.lex (utf8 left) = some before := by
  obtain ⟨pieces, pieced, rfl⟩ := spells
  rw [pieced.same, lex_apart pieced.told pieced.apart]

theorem Opens.spells (opens : Opens left before) : Spells left before := by
  obtain ⟨pieces, pieced, -, tokens⟩ := opens
  exact ⟨pieces, pieced, tokens⟩

theorem Opens.nil : Opens "" [] := ⟨[], ⟨rfl, by simp, .nil⟩, by simp [Opening], rfl⟩

theorem Spells.append (spells : Spells left before) (opens : Opens right after) :
    Spells (left ++ right) (before ++ after) := by
  obtain ⟨first, leftPieced, rfl⟩ := spells
  obtain ⟨second, rightPieced, opening, rfl⟩ := opens
  exact ⟨first ++ second, leftPieced.append rightPieced (.inr opening), tokens_append first second⟩

theorem Opens.append (opens : Opens left before) (next : Opens right after) :
    Opens (left ++ right) (before ++ after) := by
  obtain ⟨first, leftPieced, opening, rfl⟩ := opens
  obtain ⟨second, rightPieced, openingNext, rfl⟩ := next
  refine ⟨first ++ second, leftPieced.append rightPieced (.inr openingNext), ?_, tokens_append first second⟩
  cases first with
  | nil => exact openingNext
  | cons piece first => exact opening

end Spells

section Literals

/-- A word, or a soft piece. -/
def clear : Piece → Bool
  | some (.word (byte :: rest)) => Lexer.isLetter byte && rest.all Lexer.isWordByte
  | piece => soft piece

theorem told_of_clear {piece : Piece} (isClear : clear piece = true) : Told piece := by
  rcases piece with _ | s | bytes | bytes | ⟨mark, bytes⟩
  · rintro token ⟨⟩
  · exact isClear
  · cases bytes with
    | nil => cases isClear
    | cons byte rest =>
        obtain ⟨letter, others⟩ := Bool.and_eq_true_iff.mp isClear
        rintro token ⟨⟩
        exact ⟨byte, rest, rfl, letter, List.all_eq_true.mp others⟩
  · cases isClear
  · cases isClear

/-- A fixed text, by its pieces. -/
def literal (text : String) (pieces : List Piece) : Bool :=
  decide (utf8 text = Lexer.text pieces) && pieces.all clear && decide (pieces.IsChain Apart)

variable {text rest : String} {pieces : List Piece} {after : List Token}

theorem pieced_of_literal (isLiteral : literal text pieces = true) : Pieced text pieces := by
  simp only [literal, Bool.and_eq_true, decide_eq_true_eq, List.all_eq_true] at isLiteral
  exact ⟨isLiteral.1.1, fun piece member => told_of_clear (isLiteral.1.2 piece member), isLiteral.2⟩

/-- A fixed text that ends softly. -/
def leads (text : String) (pieces : List Piece) : Bool := literal text pieces && pieces.getLast?.any soft

/-- A fixed text that begins softly. -/
def opens (text : String) (pieces : List Piece) : Bool := literal text pieces && pieces.head?.any soft

theorem closing_of_any (ends : pieces.getLast?.any soft = true) : Closing pieces := by
  intro last isLast
  rw [Option.mem_def.mp isLast] at ends
  exact ends

theorem opening_of_any (begins : pieces.head?.any soft = true) : Opening pieces := by
  intro first isFirst
  rw [Option.mem_def.mp isFirst] at begins
  exact begins

theorem Spells.lead (pieces : List Piece) (isLead : leads text pieces = true) (spells : Spells rest after) :
    Spells (text ++ rest) (Lexer.tokens pieces ++ after) := by
  obtain ⟨isLiteral, ends⟩ := Bool.and_eq_true_iff.mp isLead
  obtain ⟨second, pieced, rfl⟩ := spells
  exact ⟨pieces ++ second, (pieced_of_literal isLiteral).append pieced (.inl (closing_of_any ends)),
    tokens_append pieces second⟩

theorem Opens.literal (pieces : List Piece) (isOpening : opens text pieces = true) : Opens text (Lexer.tokens pieces) := by
  obtain ⟨isLiteral, begins⟩ := Bool.and_eq_true_iff.mp isOpening
  exact ⟨pieces, pieced_of_literal isLiteral, opening_of_any begins, rfl⟩

/-- A fixed text between any two pieces. -/
theorem Opens.lead (pieces : List Piece) (isOpening : opens text pieces = true) (isLead : leads text pieces = true)
    (spells : Spells rest after) : Opens (text ++ rest) (Lexer.tokens pieces ++ after) := by
  obtain ⟨isLiteral, begins⟩ := Bool.and_eq_true_iff.mp isOpening
  obtain ⟨-, ends⟩ := Bool.and_eq_true_iff.mp isLead
  obtain ⟨second, pieced, rfl⟩ := spells
  refine ⟨pieces ++ second, (pieced_of_literal isLiteral).append pieced (.inl (closing_of_any ends)), ?_,
    tokens_append pieces second⟩
  cases pieces with
  | nil => cases begins
  | cons piece pieces => exact opening_of_any begins

end Literals

section Names

/-- The text with its quotes doubled. -/
def doubled (text : String) : String := String.ofList (text.toList.flatMap fun c => if c = '"' then ['"', '"'] else [c])

theorem double_append (first second : List UInt8) :
    Lexer.Quote.ident.double (first ++ second) = Lexer.Quote.ident.double first ++ Lexer.Quote.ident.double second :=
  List.flatMap_append

/-- A character that is no quote has none among its bytes. -/
theorem double_char {c : Char} (other : c ≠ '"') :
    Lexer.Quote.ident.double (String.utf8EncodeChar c) = String.utf8EncodeChar c := by
  have none : ∀ byte ∈ String.utf8EncodeChar c, byte ≠ 0x22 := by
    rintro byte member rfl
    by_cases size : c.utf8Size = 1
    · rw [String.utf8EncodeChar_eq_singleton size, List.mem_singleton] at member
      obtain ⟨value, -⟩ := Utf8.toNat_toUInt8_of_ascii size
      rw [← member] at value
      exact other (Char.toNat_inj.mp value.symm)
    · exact absurd (Utf8.utf8EncodeChar_wide size _ member) (by decide)
  have single : ∀ byte ∈ String.utf8EncodeChar c, (if byte = Lexer.Quote.ident.byte then [byte, byte] else [byte]) = [byte] :=
    fun byte member => if_neg (none byte member)
  rw [Lexer.Quote.double, List.flatMap_congr single]
  exact List.flatMap_singleton' _

theorem utf8_doubled (text : String) : utf8 (doubled text) = Lexer.Quote.ident.double (utf8 text) := by
  rw [doubled, utf8_encode, utf8_encode, String.toList_ofList]
  induction text.toList with
  | nil => rfl
  | cons c chars ih =>
      rw [List.flatMap_cons, Utf8.encode_cons, double_append, ← ih]
      by_cases quote : c = '"'
      · rw [if_pos quote, quote]
        rfl
      · rw [if_neg quote, double_char quote]
        rfl

theorem Spells.name (text : String) : Spells ("\"" ++ doubled text ++ "\"") [ident text] := by
  refine ⟨[some (ident text)], ⟨?_, by simp [Told, ident, Piece.Valid, Token.Valid], .singleton _⟩, rfl⟩
  rw [utf8_append, utf8_append, utf8_doubled]
  simp [Lexer.text, Piece.text, ident, Token.text]
  rfl

end Names

section Joins

/-- `join`. -/
def join (separator : String) : List String → String
  | [] => ""
  | [text] => text
  | text :: texts => text ++ separator ++ join separator texts

/-- By induction on the texts: each is joined to those behind it. -/
theorem Spells.join {γ : Type} {separator : String} (pieces : List Piece) (isOpening : opens separator pieces = true)
    (isLead : leads separator pieces = true) {text : γ → String} {spelled : γ → List Token} {a : γ} {all : List γ}
    (each : ∀ b ∈ a :: all, Spells (text b) (spelled b)) :
    Spells (join separator ((a :: all).map text))
      (spelled a ++ all.flatMap fun b => Lexer.tokens pieces ++ spelled b) := by
  induction all generalizing a with
  | nil =>
      rw [List.flatMap_nil, List.append_nil]
      exact each a List.mem_cons_self
  | cons b all ih =>
      obtain ⟨here, others⟩ := List.forall_mem_cons.mp each
      have later := Opens.lead pieces isOpening isLead (ih others)
      have whole := here.append later
      rw [← String.append_assoc] at whole
      rw [List.flatMap_cons, List.append_assoc]
      exact whole

end Joins

end StoolapMariadb.Spelling
