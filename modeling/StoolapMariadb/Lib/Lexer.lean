import Mathlib.Data.List.Chain

namespace Lexer

/-! A lexer of SQL's quotes, comments and longest matches, byte by byte, and
when a text put together from pieces is read as those pieces. -/

inductive Symbol where
  | lparen | rparen | comma | dot | star | plus | minus | slash | dollar
  | eq | ne | lt | le | gt | ge | concat
deriving DecidableEq

def Symbol.text : Symbol → List UInt8
  | .lparen => [0x28]
  | .rparen => [0x29]
  | .comma => [0x2C]
  | .dot => [0x2E]
  | .star => [0x2A]
  | .plus => [0x2B]
  | .minus => [0x2D]
  | .slash => [0x2F]
  | .dollar => [0x24]
  | .eq => [0x3D]
  | .ne => [0x3C, 0x3E]
  | .lt => [0x3C]
  | .le => [0x3C, 0x3D]
  | .gt => [0x3E]
  | .ge => [0x3E, 0x3D]
  | .concat => [0x7C, 0x7C]

/-- Identifiers are in double quotes, strings in single ones. -/
inductive Quote where
  | ident | string
deriving DecidableEq

def Quote.byte : Quote → UInt8
  | .ident => 0x22
  | .string => 0x27

inductive Token where
  | symbol (symbol : Symbol)
  | word (bytes : List UInt8)
  | number (bytes : List UInt8)
  | quoted (quote : Quote) (bytes : List UInt8)
deriving DecidableEq

/-- A quote within its own quotes is doubled. -/
def Quote.double (quote : Quote) (bytes : List UInt8) : List UInt8 :=
  bytes.flatMap fun byte => if byte = quote.byte then [byte, byte] else [byte]

def Token.text : Token → List UInt8
  | .symbol sign => sign.text
  | .word bytes | .number bytes => bytes
  | .quoted mark bytes => mark.byte :: (mark.double bytes ++ [mark.byte])

def isDigit (byte : UInt8) : Bool := 0x30 ≤ byte && byte ≤ 0x39

def isLetter (byte : UInt8) : Bool :=
  (0x41 ≤ byte && byte ≤ 0x5A) || (0x61 ≤ byte && byte ≤ 0x7A) || byte = 0x5F

def isWordByte (byte : UInt8) : Bool := isLetter byte || isDigit byte

/-- The part of a number: the digits before the point, those after it, the
letter of the exponent, and the exponent. -/
inductive Phase where
  | whole | fraction | exponent | power
deriving DecidableEq

/-- A number's next byte, or none where it ends. -/
def Phase.next : Phase → UInt8 → Option Phase
  | .whole, byte =>
      if isDigit byte then some .whole else if byte = 0x2E then some .fraction
      else if byte = 0x65 || byte = 0x45 then some .exponent else none
  | .fraction, byte =>
      if isDigit byte then some .fraction else if byte = 0x65 || byte = 0x45 then some .exponent else none
  | .exponent, byte => if isDigit byte || byte = 0x2B || byte = 0x2D then some .power else none
  | .power, byte => if isDigit byte then some .power else none

/-- What the lexer has begun: a token that may go on, quotes it is in, or a
comment. A quote that may be doubled is an end that may go on. -/
inductive Mode where
  | start
  | word (bytes : List UInt8)
  | number (phase : Phase) (bytes : List UInt8)
  | quote (quote : Quote) (bytes : List UInt8)
  | quoteEnd (quote : Quote) (bytes : List UInt8)
  | minus
  | less
  | greater
  | bar
  | comment

/-- The token that ends where the mode does. -/
def Mode.pending : Mode → List Token
  | .word bytes => [.word bytes]
  | .number _ bytes => [.number bytes]
  | .quoteEnd mark bytes => [.quoted mark bytes]
  | .minus => [.symbol .minus]
  | .less => [.symbol .lt]
  | .greater => [.symbol .gt]
  | .start | .quote _ _ | .bar | .comment => []

/-- The first byte of a token. -/
def first (byte : UInt8) : Option (List Token × Mode) :=
  if byte = 0x20 || byte = 0x09 || byte = 0x0A || byte = 0x0D then some ([], .start)
  else if isLetter byte then some ([], .word [byte])
  else if isDigit byte then some ([], .number .whole [byte])
  else if byte = 0x22 then some ([], .quote .ident [])
  else if byte = 0x27 then some ([], .quote .string [])
  else if byte = 0x2D then some ([], .minus)
  else if byte = 0x3C then some ([], .less)
  else if byte = 0x3E then some ([], .greater)
  else if byte = 0x7C then some ([], .bar)
  else if byte = 0x28 then some ([.symbol .lparen], .start)
  else if byte = 0x29 then some ([.symbol .rparen], .start)
  else if byte = 0x2C then some ([.symbol .comma], .start)
  else if byte = 0x2E then some ([.symbol .dot], .start)
  else if byte = 0x2A then some ([.symbol .star], .start)
  else if byte = 0x2B then some ([.symbol .plus], .start)
  else if byte = 0x2F then some ([.symbol .slash], .start)
  else if byte = 0x24 then some ([.symbol .dollar], .start)
  else if byte = 0x3D then some ([.symbol .eq], .start)
  else none

/-- A byte that does not go on with what is begun: that ends, and a token
begins. -/
def fresh (mode : Mode) (byte : UInt8) : Option (List Token × Mode) :=
  (first byte).map fun begun => (mode.pending ++ begun.1, begun.2)

def step : Mode → UInt8 → Option (List Token × Mode)
  | .start, byte => first byte
  | .word bytes, byte =>
      if isWordByte byte then some ([], .word (bytes ++ [byte])) else fresh (.word bytes) byte
  | .number phase bytes, byte =>
      match phase.next byte with
      | some phase => some ([], .number phase (bytes ++ [byte]))
      | none => fresh (.number phase bytes) byte
  | .quote mark bytes, byte =>
      if byte = mark.byte then some ([], .quoteEnd mark bytes) else some ([], .quote mark (bytes ++ [byte]))
  | .quoteEnd mark bytes, byte =>
      if byte = mark.byte then some ([], .quote mark (bytes ++ [byte])) else fresh (.quoteEnd mark bytes) byte
  | .minus, byte => if byte = 0x2D then some ([], .comment) else fresh .minus byte
  | .less, byte =>
      if byte = 0x3D then some ([.symbol .le], .start)
      else if byte = 0x3E then some ([.symbol .ne], .start)
      else fresh .less byte
  | .greater, byte => if byte = 0x3D then some ([.symbol .ge], .start) else fresh .greater byte
  | .bar, byte => if byte = 0x7C then some ([.symbol .concat], .start) else none
  | .comment, byte => if byte = 0x0A then some ([], .start) else some ([], .comment)

def run : Mode → List UInt8 → Option (List Token)
  | .quote _ _, [] | .bar, [] => none
  | mode, [] => some mode.pending
  | mode, byte :: bytes =>
      match step mode byte with
      | none => none
      | some begun => (run begun.2 bytes).map (begun.1 ++ ·)

def lex (text : List UInt8) : Option (List Token) := run .start text

/-- Whether the byte goes on with what the mode has begun. -/
def Mode.merges : Mode → UInt8 → Bool
  | .word _, byte => isWordByte byte
  | .number phase _, byte => (phase.next byte).isSome
  | .quoteEnd mark _, byte => byte = mark.byte
  | .minus, byte => byte = 0x2D
  | .less, byte => byte = 0x3D || byte = 0x3E
  | .greater, byte => byte = 0x3D
  | .start, _ | .quote _ _, _ | .bar, _ | .comment, _ => false

/-- Between tokens, or past one that may go on. -/
def Mode.Resting : Mode → Prop
  | .quote _ _ | .bar | .comment => False
  | .start | .word _ | .number _ _ | .quoteEnd _ _ | .minus | .less | .greater => True

/-- A piece of a text: a token, or a space. -/
abbrev Piece := Option Token

def Piece.text : Piece → List UInt8
  | none => [0x20]
  | some written => written.text

def text (pieces : List Piece) : List UInt8 := pieces.flatMap Piece.text

def tokens (pieces : List Piece) : List Token := pieces.filterMap id

/-- The part a number's bytes end in. -/
def numberPhase : List UInt8 → Option Phase
  | [] => none
  | byte :: bytes => if isDigit byte then bytes.foldlM Phase.next .whole else none

def Token.Valid : Token → Prop
  | .symbol _ | .quoted _ _ => True
  | .word bytes => ∃ byte rest, bytes = byte :: rest ∧ isLetter byte = true ∧ ∀ byte ∈ rest, isWordByte byte = true
  | .number bytes => (numberPhase bytes).isSome = true

def Piece.Valid (piece : Piece) : Prop := ∀ token ∈ piece, token.Valid

/-- How the lexer is left behind a token. -/
def Token.mode : Token → Mode
  | .symbol .minus => .minus
  | .symbol .lt => .less
  | .symbol .gt => .greater
  | .symbol _ => .start
  | .word bytes => .word bytes
  | .number bytes => .number ((numberPhase bytes).getD .whole) bytes
  | .quoted mark bytes => .quoteEnd mark bytes

def Piece.mode : Piece → Mode
  | none => .start
  | some written => written.mode

/-- What of a piece is read as soon as it ends. -/
def Piece.closed (piece : Piece) : List Token :=
  match piece.mode.pending with
  | [] => piece.toList
  | _ :: _ => []

/-- The second piece does not go on with the first. -/
def Fits (left right : Piece) : Prop := ∀ byte ∈ right.text.head?, left.mode.merges byte = false

/-- Two minus signs, which begin a comment. -/
def Clash (left right : Piece) : Prop := left = some (.symbol .minus) ∧ right = some (.symbol .minus)

section Runs

variable {mode : Mode} {byte : UInt8} {rest : List UInt8}

theorem run_cons (mode : Mode) (byte : UInt8) (rest : List UInt8) :
    run mode (byte :: rest) = (step mode byte).bind fun begun => (run begun.2 rest).map (begun.1 ++ ·) := by
  rw [run]
  cases step mode byte <;> rfl

theorem run_nil (resting : mode.Resting) : run mode [] = some mode.pending := by
  cases mode <;> first | rfl | exact resting.elim

theorem step_fresh (resting : mode.Resting) (apart : mode.merges byte = false) : step mode byte = fresh mode byte := by
  cases mode <;> simp only [Mode.merges, Mode.Resting, Bool.or_eq_false_iff, decide_eq_false_iff_not] at apart resting
  case start =>
      rw [step, fresh]
      cases first byte <;> rfl
  case number phase bytes =>
      rw [step, Option.not_isSome_iff_eq_none.mp (Bool.eq_false_iff.mp apart)]
  case less => rw [step, if_neg apart.1, if_neg apart.2]
  all_goals simp [step, apart]

/-- What is begun ends where a byte does not go on with it. -/
theorem run_fresh (resting : mode.Resting) (apart : mode.merges byte = false) :
    run mode (byte :: rest) = (run .start (byte :: rest)).map (mode.pending ++ ·) := by
  rw [run_cons, step_fresh resting apart, run_cons, step, fresh]
  cases first byte with
  | none => rfl
  | some begun =>
      rw [Option.map_some, Option.bind_some, Option.bind_some, Option.map_map]
      congr 1
      funext read
      exact List.append_assoc ..

theorem run_word (bytes : List UInt8) {more : List UInt8} (word : ∀ byte ∈ more, isWordByte byte = true) :
    run (.word bytes) (more ++ rest) = run (.word (bytes ++ more)) rest := by
  induction more generalizing bytes with
  | nil => rw [List.nil_append, List.append_nil]
  | cons byte more ih =>
      obtain ⟨here, later⟩ := List.forall_mem_cons.mp word
      rw [List.cons_append, run_cons, step, if_pos here, Option.bind_some, ih _ later, List.append_assoc]
      exact Option.map_id' ..

theorem run_number (phase : Phase) (bytes : List UInt8) {more : List UInt8} {last : Phase}
    (number : more.foldlM Phase.next phase = some last) :
    run (.number phase bytes) (more ++ rest) = run (.number last (bytes ++ more)) rest := by
  induction more generalizing phase bytes with
  | nil =>
      cases number
      rw [List.nil_append, List.append_nil]
  | cons byte more ih =>
      rw [List.foldlM_cons] at number
      cases next : phase.next byte with
      | none =>
          rw [next] at number
          cases number
      | some middle =>
          rw [next] at number
          rw [List.cons_append, run_cons, step, next]
          rw [Option.bind_some, ih middle _ number, List.append_assoc]
          exact Option.map_id' ..

/-- Quotes end where one stands that is not doubled. -/
theorem run_quote (quote : Quote) (bytes more : List UInt8) :
    run (.quote quote bytes) (quote.double more ++ quote.byte :: rest) =
      run (.quoteEnd quote (bytes ++ more)) rest := by
  induction more generalizing bytes with
  | nil =>
      rw [Quote.double, List.flatMap_nil, List.nil_append, List.append_nil, run_cons, step, if_pos rfl,
        Option.bind_some]
      exact Option.map_id' ..
  | cons byte more ih =>
      have next := ih (bytes ++ [byte])
      rw [List.append_assoc, List.singleton_append] at next
      rw [Quote.double, List.flatMap_cons, ← Quote.double]
      by_cases doubled : byte = quote.byte
      · rw [if_pos doubled, List.append_assoc, List.cons_append, List.cons_append, List.nil_append, run_cons, step,
          if_pos doubled, Option.bind_some, run_cons, step, if_pos doubled, Option.bind_some, next]
        rw [Option.map_map]
        exact Option.map_id' ..
      · rw [if_neg doubled, List.append_assoc, List.cons_append, List.nil_append, run_cons, step, if_neg doubled,
          Option.bind_some, next]
        exact Option.map_id' ..

end Runs

section Pieces

variable {byte : UInt8} {rest : List UInt8} {piece : Piece} {pieces : List Piece}

theorem first_letter (letter : isLetter byte = true) : first byte = some ([], .word [byte]) := by
  have spaceless : ¬ (byte = 0x20 || byte = 0x09 || byte = 0x0A || byte = 0x0D) = true := by
    simp only [Bool.or_eq_true, decide_eq_true_eq]
    rintro (((rfl | rfl) | rfl) | rfl) <;> exact absurd letter (by decide)
  rw [first, if_neg spaceless, if_pos letter]

theorem first_digit (digit : isDigit byte = true) : first byte = some ([], .number .whole [byte]) := by
  have spaceless : ¬ (byte = 0x20 || byte = 0x09 || byte = 0x0A || byte = 0x0D) = true := by
    simp only [Bool.or_eq_true, decide_eq_true_eq]
    rintro (((rfl | rfl) | rfl) | rfl) <;> exact absurd digit (by decide)
  have letterless : ¬ isLetter byte = true := by
    simp only [isDigit, isLetter, Bool.or_eq_true, Bool.and_eq_true, decide_eq_true_eq, UInt8.le_iff_toNat_le,
      ← UInt8.toNat_inj] at digit ⊢
    simp only [UInt8.reduceToNat] at digit ⊢
    omega
  rw [first, if_neg spaceless, if_neg letterless, if_pos digit]

/-- One piece is read from between tokens. -/
theorem run_piece (valid : piece.Valid) :
    run .start (piece.text ++ rest) = (run piece.mode rest).map (piece.closed ++ ·) := by
  cases piece with
  | none => rfl
  | some token =>
      have valid : token.Valid := valid token rfl
      cases token with
      | symbol sign =>
          cases sign with
          | ne | le | ge | concat =>
              change ((run .start rest).map _).map ([] ++ ·) = _
              rw [Option.map_map]
              rfl
          | _ => rfl
      | word bytes =>
          obtain ⟨byte, more, rfl, letter, word⟩ := valid
          change run .start (byte :: (more ++ rest)) = _
          rw [run_cons, step, first_letter letter]
          change (run (.word [byte]) (more ++ rest)).map ([] ++ ·) = _
          rw [run_word [byte] word]
          rfl
      | number bytes =>
          cases bytes with
          | nil => cases valid
          | cons byte more =>
              cases phase : numberPhase (byte :: more) with
              | none =>
                  change (numberPhase (byte :: more)).isSome = true at valid
                  rw [phase] at valid
                  cases valid
              | some last =>
                  have ends : Piece.mode (some (.number (byte :: more))) = .number last (byte :: more) := by
                    rw [Piece.mode, Token.mode, phase, Option.getD_some]
                  rw [numberPhase] at phase
                  split at phase
                  · rename_i digit
                    change run .start (byte :: (more ++ rest)) = _
                    rw [run_cons, step, first_digit digit]
                    change (run (.number .whole [byte]) (more ++ rest)).map ([] ++ ·) = _
                    rw [run_number .whole [byte] phase, ends, Piece.closed, ends]
                    rfl
                  · cases phase
      | quoted mark bytes =>
          have begun : first mark.byte = some ([], .quote mark []) := by cases mark <;> rfl
          change run .start (mark.byte :: ((mark.double bytes ++ [mark.byte]) ++ rest)) = _
          rw [run_cons, step, begun, List.append_assoc, List.singleton_append]
          change (run (.quote mark []) (mark.double bytes ++ mark.byte :: rest)).map ([] ++ ·) = _
          rw [run_quote mark [] bytes]
          rfl

theorem closed_pending (piece : Piece) : piece.closed ++ piece.mode.pending = piece.toList := by
  rcases piece with _ | sign | bytes | bytes | ⟨mark, bytes⟩
  · rfl
  · cases sign <;> rfl
  · rfl
  · rfl
  · rfl

theorem mode_resting (piece : Piece) : piece.mode.Resting := by
  rcases piece with _ | sign | bytes | bytes | ⟨mark, bytes⟩
  · trivial
  · cases sign <;> trivial
  · trivial
  · trivial
  · trivial

theorem text_ne_nil (valid : piece.Valid) : ∃ byte rest, piece.text = byte :: rest := by
  rcases piece with _ | sign | bytes | bytes | ⟨mark, bytes⟩
  · exact ⟨_, _, rfl⟩
  · cases sign <;> exact ⟨_, _, rfl⟩
  · obtain ⟨byte, more, rfl, -⟩ := valid _ rfl
    exact ⟨byte, more, rfl⟩
  · cases bytes with
    | nil => cases valid _ rfl
    | cons byte more => exact ⟨byte, more, rfl⟩
  · exact ⟨_, _, rfl⟩

theorem text_cons (piece : Piece) (pieces : List Piece) : text (piece :: pieces) = piece.text ++ text pieces :=
  List.flatMap_cons

theorem tokens_cons (piece : Piece) (pieces : List Piece) : tokens (piece :: pieces) = piece.toList ++ tokens pieces := by
  cases piece <;> rfl

/-- How the lexer is left behind some pieces. -/
def lastMode (mode : Mode) (pieces : List Piece) : Mode := pieces.foldl (fun _ piece => piece.mode) mode

/-- The run lemma: pieces that fit are read as their tokens, behind what is
begun and before what follows. -/
theorem run_text {mode : Mode} (valid : ∀ piece ∈ pieces, piece.Valid) (fits : pieces.IsChain Fits)
    (resting : mode.Resting) (apart : ∀ piece ∈ pieces.head?, ∀ byte ∈ piece.text.head?, mode.merges byte = false)
    {read : List Token} (ends : run (lastMode mode pieces) rest = some ((lastMode mode pieces).pending ++ read)) :
    run mode (text pieces ++ rest) = some (mode.pending ++ (tokens pieces ++ read)) := by
  induction pieces generalizing mode with
  | nil => exact ends
  | cons piece pieces ih =>
      obtain ⟨here, later⟩ := List.forall_mem_cons.mp valid
      obtain ⟨fitsNext, fitsLater⟩ := List.isChain_cons.mp fits
      obtain ⟨byte, more, begins⟩ := text_ne_nil here
      have whole : run .start (piece.text ++ (text pieces ++ rest)) = some (tokens (piece :: pieces) ++ read) := by
        rw [run_piece here, ih later fitsLater (mode_resting piece) fitsNext ends, Option.map_some,
          ← List.append_assoc, closed_pending, tokens_cons, List.append_assoc]
      rw [text_cons, List.append_assoc]
      have first := apart piece rfl byte (by rw [begins]; rfl)
      rw [begins, List.cons_append] at whole ⊢
      rw [run_fresh resting first, whole, Option.map_some]

theorem lastMode_resting {mode : Mode} (resting : mode.Resting) (pieces : List Piece) : (lastMode mode pieces).Resting := by
  induction pieces generalizing mode with
  | nil => exact resting
  | cons piece pieces ih => exact ih (mode_resting piece)

theorem start_resting : Mode.start.Resting := trivial

theorem lex_text (valid : ∀ piece ∈ pieces, piece.Valid) (fits : pieces.IsChain Fits) :
    lex (text pieces) = some (tokens pieces) := by
  have read := @run_text [] pieces .start valid fits start_resting (fun _ _ _ _ => rfl) []
    (by rw [run_nil (lastMode_resting start_resting pieces), List.append_nil])
  rwa [List.append_nil, List.append_nil] at read

def minusSign : Piece := some (.symbol .minus)

/-- Two minus signs take the rest of the line with them. -/
theorem lex_clash (valid : ∀ piece ∈ pieces, piece.Valid) (fits : (pieces ++ [minusSign]).IsChain Fits) :
    lex (text (pieces ++ [minusSign, minusSign])) = some (tokens pieces) := by
  obtain ⟨before, -, ends⟩ := List.isChain_append.mp fits
  have apart : (lastMode .start pieces).merges 0x2D = false := by
    rcases List.eq_nil_or_concat pieces with rfl | ⟨earlier, last, rfl⟩
    · rfl
    · rw [List.concat_eq_append, lastMode, List.foldl_append]
      exact ends last (by simp) minusSign rfl 0x2D rfl
  have comment : run (lastMode .start pieces) [0x2D, 0x2D] = some ((lastMode .start pieces).pending ++ []) := by
    rw [run_fresh (lastMode_resting start_resting pieces) apart]
    rfl
  have read := run_text valid before start_resting (fun _ _ _ _ => rfl) comment
  rw [List.append_nil] at read
  rw [lex, text, List.flatMap_append]
  exact read

/-- Up to any piece, the text is read as the pieces it is put together from. -/
def ReadsAs (pieces : List Piece) : Prop := ∀ count, lex (text (pieces.take count)) = some (tokens (pieces.take count))

/-- The first place where two minus signs meet. -/
theorem clash_or_fits (close : pieces.IsChain fun left right => Fits left right ∨ Clash left right) :
    pieces.IsChain Fits ∨
      ∃ before after, pieces = before ++ minusSign :: minusSign :: after ∧ (before ++ [minusSign]).IsChain Fits := by
  induction pieces with
  | nil => exact .inl .nil
  | cons piece pieces ih =>
      obtain ⟨here, later⟩ := List.isChain_cons.mp close
      rcases ih later with fits | ⟨before, after, rfl, fits⟩
      · cases pieces with
        | nil => exact .inl (.singleton piece)
        | cons next pieces =>
            rcases here next rfl with fitsHere | clash
            · exact .inl (List.isChain_cons_cons.mpr ⟨fitsHere, fits⟩)
            · obtain ⟨rfl, rfl⟩ := clash
              exact .inr ⟨[], pieces, rfl, .singleton _⟩
      · cases before with
        | nil =>
            rcases here minusSign rfl with fitsHere | clash
            · exact .inr ⟨[piece], after, rfl, List.isChain_cons_cons.mpr ⟨fitsHere, fits⟩⟩
            · obtain ⟨rfl, -⟩ := clash
              exact .inr ⟨[], minusSign :: after, rfl, .singleton _⟩
        | cons next before =>
            rcases here next rfl with fitsHere | clash
            · exact .inr ⟨piece :: next :: before, after, rfl, List.isChain_cons_cons.mpr ⟨fitsHere, fits⟩⟩
            · obtain ⟨rfl, rfl⟩ := clash
              refine .inr ⟨[], before ++ minusSign :: minusSign :: after, rfl, .singleton _⟩

/-- Pieces of which only minus signs can clash are read as they are exactly when
no two minus signs meet. -/
theorem readsAs_iff (valid : ∀ piece ∈ pieces, piece.Valid)
    (close : pieces.IsChain fun left right => Fits left right ∨ Clash left right) :
    ReadsAs pieces ↔ pieces.IsChain fun left right => ¬ Clash left right := by
  constructor
  · intro reads
    rcases clash_or_fits close with fits | ⟨before, after, rfl, fits⟩
    · refine fits.imp fun left right fit clash => ?_
      obtain ⟨rfl, rfl⟩ := clash
      exact absurd (fit 0x2D rfl) (by decide)
    · have cut : (before ++ minusSign :: minusSign :: after).take (before.length + 2) =
          before ++ [minusSign, minusSign] := by
        rw [List.take_length_add_append]
        rfl
      have whole := reads (before.length + 2)
      rw [cut, lex_clash (fun piece member => valid piece (List.mem_append_left _ member)) fits] at whole
      have lengths := congrArg List.length (Option.some.inj whole)
      simp [tokens, minusSign] at lengths
  · intro apart count
    rcases clash_or_fits close with fits | ⟨before, after, rfl, -⟩
    · exact lex_text (fun piece member => valid piece (List.mem_of_mem_take member)) (fits.take count)
    · exact ((List.isChain_append_cons_cons.mp apart).2.1 ⟨rfl, rfl⟩).elim

end Pieces

end Lexer
