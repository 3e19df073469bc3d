import StoolapMariadb.SqlGen.Shape

namespace StoolapMariadb.SqlGen

/-! When the written text is read as the tokens it is written from. -/

open Lexer (Symbol Quote Fits Clash)

section Tokens

theorem keyword_mem (k : Keyword) : k ∈ keywords := by
  cases k with
  | type t => cases t <;> decide
  | function f => cases f <;> decide
  | aggregate a => cases a <;> decide
  | window f => cases f <;> decide
  | _ => decide

theorem keywords_nodup : (keywords.map fun k => utf8 k.text).Nodup := by decide +kernel

theorem find_of_nodup {α β : Type} [DecidableEq β] {f : α → β} {list : List α} {a : α} (nodup : (list.map f).Nodup)
    (member : a ∈ list) : list.find? (fun other => f other = f a) = some a := by
  induction list with
  | nil => cases member
  | cons other list ih =>
      obtain ⟨apart, later⟩ := List.nodup_cons.mp nodup
      rcases List.mem_cons.mp member with rfl | below
      · exact List.find?_cons_of_pos (decide_eq_true rfl)
      · have different : f other ≠ f a := fun same => apart (same ▸ List.mem_map_of_mem below)
        rw [List.find?_cons, decide_eq_false different]
        exact ih later below

theorem ofLexed_lexed {token : Tok} (valid : token.Valid) : Tok.ofLexed token.lexed = some token := by
  cases token with
  | symbol s => rfl
  | keyword k => simp only [Tok.lexed, Tok.ofLexed, find_of_nodup keywords_nodup (keyword_mem k)]
  | word text =>
      have none : keywords.find? (fun k => utf8 k.text = utf8 text) = none :=
        List.find?_eq_none.mpr fun k member => by simpa using valid.2 k member
      simp only [Tok.lexed, Tok.ofLexed, none, decode_utf8, Option.map_some]
  | name text => simp only [Tok.lexed, Tok.ofLexed, decode_utf8, Option.map_some]
  | number text => simp only [Tok.lexed, Tok.ofLexed, decode_utf8, Option.map_some]
  | string bytes => rfl

theorem lexed_ofLexed {read : Lexer.Token} {token : Tok} (told : Tok.ofLexed read = some token) : token.lexed = read := by
  have decoded {bytes : List UInt8} {make : String → Tok} (made : (decodeUtf8 bytes).map make = some token) :
      ∃ text, utf8 text = bytes ∧ make text = token := by
    obtain ⟨text, decoded, rfl⟩ := Option.map_eq_some_iff.mp made
    exact ⟨text, utf8_decode decoded, rfl⟩
  cases read with
  | symbol s => cases told; rfl
  | word bytes =>
      simp only [Tok.ofLexed] at told
      cases found : keywords.find? (fun k => utf8 k.text = bytes) with
      | some k =>
          rw [found] at told
          cases told
          have same : utf8 k.text = bytes := by simpa using List.find?_some found
          rw [Tok.lexed, same]
      | none =>
          rw [found] at told
          obtain ⟨text, rfl, rfl⟩ := decoded told
          rfl
  | number bytes =>
      obtain ⟨text, rfl, rfl⟩ := decoded told
      rfl
  | quoted mark bytes =>
      cases mark with
      | ident =>
          obtain ⟨text, rfl, rfl⟩ := decoded told
          rfl
      | string => cases told; rfl

theorem mapM_ofLexed {tokens : List Tok} (valid : ∀ token ∈ tokens, token.Valid) :
    (tokens.map Tok.lexed).mapM Tok.ofLexed = some tokens := by
  induction tokens with
  | nil => rfl
  | cons token tokens ih =>
      obtain ⟨here, later⟩ := List.forall_mem_cons.mp valid
      simp [List.mapM_cons, ofLexed_lexed here, ih later]

theorem map_lexed {read : List Lexer.Token} {tokens : List Tok} (told : read.mapM Tok.ofLexed = some tokens) :
    tokens.map Tok.lexed = read := by
  induction read generalizing tokens with
  | nil => cases told; rfl
  | cons first read ih =>
      simp only [List.mapM_cons, Option.bind_eq_bind, Option.pure_def, Option.bind_eq_some_iff, Option.some.injEq] at told
      obtain ⟨token, here, others, later, rfl⟩ := told
      rw [List.map_cons, lexed_ofLexed here, ih later]

def isWord : List UInt8 → Bool
  | [] => false
  | byte :: rest => Lexer.isLetter byte && rest.all Lexer.isWordByte

theorem valid_of_isWord {bytes : List UInt8} (word : isWord bytes = true) : (Lexer.Token.word bytes).Valid := by
  cases bytes with
  | nil => cases word
  | cons byte rest =>
      obtain ⟨letter, others⟩ := Bool.and_eq_true_iff.mp word
      exact ⟨byte, rest, rfl, letter, List.all_eq_true.mp others⟩

theorem keywords_words : (keywords.all fun k => isWord (utf8 k.text)) = true := by decide +kernel

theorem lexed_valid {token : Tok} (valid : token.Valid) : token.lexed.Valid := by
  cases token with
  | symbol | name | string => trivial
  | keyword k => exact valid_of_isWord (List.all_eq_true.mp keywords_words k (keyword_mem k))
  | word text => exact valid.1
  | number text => exact valid

end Tokens

section Pieces

variable {pieces rest : Pieces} {piece : Option Tok} {token : Tok} {s : Symbol}

@[simp] theorem space_eq : space = none := rfl

@[simp] theorem sign_eq (s : Symbol) : sign s = some (.symbol s) := rfl

@[simp] theorem keyword_eq (k : Keyword) : keyword k = some (.keyword k) := rfl

@[simp] theorem toks_nil : toks [] = [] := rfl

@[simp] theorem toks_space (rest : Pieces) : toks (none :: rest) = toks rest := rfl

@[simp] theorem toks_token (token : Tok) (rest : Pieces) : toks (some token :: rest) = token :: toks rest := rfl

@[simp] theorem toks_append (pieces rest : Pieces) : toks (pieces ++ rest) = toks pieces ++ toks rest :=
  List.filterMap_append

theorem toks_paren (inside : Sql) :
    toks (Sql.paren inside).written = Tok.symbol .lparen :: (toks inside.written ++ [Tok.symbol .rparen]) := by
  simp [Sql.written]

/-- The second piece does not go on with the first, or both are minus signs. -/
def Near (left right : Option Tok) : Prop :=
  Fits (left.map Tok.lexed) (right.map Tok.lexed) ∨ Clash (left.map Tok.lexed) (right.map Tok.lexed)

/-- Valid tokens, of which only minus signs may begin something else. -/
def Close (pieces : Pieces) : Prop := (∀ token ∈ toks pieces, token.Valid) ∧ pieces.IsChain Near

def minusSign : Option Tok := some (.symbol .minus)

/-- No two minus signs meet. -/
def Apart (pieces : Pieces) : Prop := pieces.IsChain fun left right => ¬ (left = minusSign ∧ right = minusSign)

/-- What goes on with no token. -/
def Follows (pieces : Pieces) : Prop :=
  ∀ piece ∈ pieces.head?, piece ∈ [none, some (.symbol .lparen), some (.symbol .rparen), some (.symbol .comma)]

/-- A symbol that nothing goes on with. -/
def ends : Symbol → Bool
  | .minus | .lt | .gt => false
  | _ => true

theorem merges_separator (mode : Lexer.Mode) {byte : UInt8} (separator : byte ∈ [0x20, 0x28, 0x29, 0x2C]) :
    mode.merges byte = false := by
  have bytes : byte = 0x20 ∨ byte = 0x28 ∨ byte = 0x29 ∨ byte = 0x2C := by simpa using separator
  cases mode with
  | number phase read => rcases bytes with rfl | rfl | rfl | rfl <;> cases phase <;> rfl
  | quoteEnd mark read => rcases bytes with rfl | rfl | rfl | rfl <;> cases mark <;> rfl
  | _ => rcases bytes with rfl | rfl | rfl | rfl <;> rfl

theorem near_follows (left : Option Tok) (follows : Follows (piece :: rest)) : Near left piece := by
  refine .inl fun byte member => merges_separator _ ?_
  have which : piece = none ∨ piece = some (.symbol .lparen) ∨ piece = some (.symbol .rparen) ∨
      piece = some (.symbol .comma) := by simpa using follows piece rfl
  rcases which with rfl | rfl | rfl | rfl <;> (cases member; decide)

theorem near_space (right : Option Tok) : Near none right := .inl fun _ _ => rfl

theorem near_symbol (last : ends s = true) (right : Option Tok) : Near (some (.symbol s)) right := by
  refine .inl fun byte _ => ?_
  cases s with
  | minus | lt | gt => cases last
  | _ => rfl

theorem near_minus {right : Option Tok} (valid : ∀ token ∈ right, token.Valid) : Near minusSign right := by
  have other (byte : UInt8) : (Lexer.Mode.minus).merges byte = false ↔ byte ≠ 0x2D := by simp [Lexer.Mode.merges]
  cases right with
  | none => exact .inl fun byte member => by cases member; rfl
  | some token =>
      have valid : token.lexed.Valid := lexed_valid (valid token rfl)
      have word {bytes : List UInt8} (valid : (Lexer.Token.word bytes).Valid) :
          Fits (some (.symbol .minus)) (some (.word bytes)) := by
        obtain ⟨byte, more, rfl, letter, -⟩ := valid
        rintro _ ⟨⟩
        refine (other byte).mpr ?_
        rintro rfl
        cases letter
      cases token with
      | symbol s =>
          cases s with
          | minus => exact .inr ⟨rfl, rfl⟩
          | _ => exact .inl fun byte member => by cases member; rfl
      | keyword k => exact .inl (word valid)
      | word text => exact .inl (word valid)
      | name text => exact .inl fun byte member => by cases member; rfl
      | string bytes => exact .inl fun byte member => by cases member; rfl
      | number text =>
          refine .inl fun byte member => (other byte).mpr ?_
          rintro rfl
          change (Lexer.numberPhase (utf8 text)).isSome = true at valid
          change (0x2D : UInt8) ∈ (utf8 text).head? at member
          cases bytes : utf8 text with
          | nil => rw [bytes] at member; cases member
          | cons byte more =>
              rw [bytes] at member valid
              cases member
              cases valid

theorem near_dot {token : Tok} (word : ∀ text, token ≠ .number text) (symbol : ∀ s, token ≠ .symbol s) :
    Near (some token) (some (.symbol .dot)) := by
  refine .inl fun byte member => ?_
  cases member
  cases token with
  | number text => exact absurd rfl (word text)
  | symbol s => exact absurd rfl (symbol s)
  | _ => rfl

theorem close_cons : Close (piece :: rest) ↔
    (∀ token ∈ piece, token.Valid) ∧ (∀ next ∈ rest.head?, Near piece next) ∧ Close rest := by
  have valid : (∀ token ∈ toks (piece :: rest), token.Valid) ↔
      (∀ token ∈ piece, token.Valid) ∧ ∀ token ∈ toks rest, token.Valid := by
    cases piece <;> simp
  rw [Close, valid, List.isChain_cons, Close]
  tauto

theorem close_append_iff : Close (pieces ++ rest) ↔
    Close pieces ∧ Close rest ∧ ∀ last ∈ pieces.getLast?, ∀ next ∈ rest.head?, Near last next := by
  rw [Close, toks_append, List.forall_mem_append, List.isChain_append, Close, Close]
  tauto

@[simp] theorem close_nil : Close [] := ⟨fun _ member => absurd member List.not_mem_nil, .nil⟩

@[simp] theorem close_space : Close (none :: rest) ↔ Close rest := by
  rw [close_cons]
  refine ⟨fun all => all.2.2, fun close => ⟨?_, fun _ _ => near_space _, close⟩⟩
  intro token member
  cases member

theorem close_symbol (last : ends s = true) : Close (some (.symbol s) :: rest) ↔ Close rest := by
  rw [close_cons]
  refine ⟨fun all => all.2.2, fun close => ⟨?_, fun _ _ => near_symbol last _, close⟩⟩
  rintro _ ⟨⟩
  trivial

@[simp] theorem close_lparen : Close (some (.symbol .lparen) :: rest) ↔ Close rest := close_symbol rfl

@[simp] theorem close_rparen : Close (some (.symbol .rparen) :: rest) ↔ Close rest := close_symbol rfl

@[simp] theorem close_dot : Close (some (.symbol .dot) :: rest) ↔ Close rest := close_symbol rfl

theorem close_head (close : Close rest) : ∀ next ∈ rest.head?, ∀ token ∈ next, token.Valid := by
  cases rest with
  | nil => exact fun _ member => by cases member
  | cons piece rest =>
      rintro _ ⟨⟩
      exact (close_cons.mp close).1

@[simp] theorem close_minus : Close (some (.symbol .minus) :: rest) ↔ Close rest := by
  rw [close_cons]
  refine ⟨fun all => all.2.2, fun close => ⟨?_, fun next member => near_minus (close_head close next member), close⟩⟩
  rintro _ ⟨⟩
  trivial

@[simp] theorem follows_nil : Follows [] := fun _ member => by cases member

@[simp] theorem follows_space : Follows (none :: rest) := fun _ member => by cases member; decide

@[simp] theorem follows_paren : Follows (some (.symbol .lparen) :: rest) := fun _ member => by cases member; decide

@[simp] theorem follows_close : Follows (some (.symbol .rparen) :: rest) := fun _ member => by cases member; decide

@[simp] theorem follows_comma : Follows (some (.symbol .comma) :: rest) := fun _ member => by cases member; decide

theorem follows_append (first : Follows pieces) (later : Follows rest) : Follows (pieces ++ rest) := by
  cases pieces with
  | nil => exact later
  | cons piece pieces => exact first

theorem near_next (left : Option Tok) (follows : Follows rest) : ∀ next ∈ rest.head?, Near left next := by
  cases rest with
  | nil => exact fun _ member => by cases member
  | cons piece rest =>
      rintro _ ⟨⟩
      exact near_follows left follows

@[simp] theorem close_token (follows : Follows rest) : Close (some token :: rest) ↔ token.Valid ∧ Close rest := by
  rw [close_cons]
  refine ⟨fun all => ⟨all.1 token rfl, all.2.2⟩, fun both => ⟨?_, near_next _ follows, both.2⟩⟩
  rintro _ ⟨⟩
  exact both.1

@[simp] theorem close_append (follows : Follows rest) : Close (pieces ++ rest) ↔ Close pieces ∧ Close rest := by
  rw [close_append_iff]
  exact ⟨fun all => ⟨all.1, all.2.1⟩, fun both => ⟨both.1, both.2, fun last _ => near_next last follows⟩⟩

@[simp] theorem apart_nil : Apart [] := .nil

theorem apart_cons : Apart (piece :: rest) ↔ (piece = minusSign → rest.head? ≠ some minusSign) ∧ Apart rest := by
  rw [Apart, List.isChain_cons, Apart]
  cases rest <;> simp

@[simp] theorem apart_space : Apart (none :: rest) ↔ Apart rest := by simp [apart_cons, minusSign]

@[simp] theorem apart_token (other : token ≠ .symbol .minus) : Apart (some token :: rest) ↔ Apart rest := by
  simp [apart_cons, minusSign, other]

@[simp] theorem apart_minus :
    Apart (some (.symbol .minus) :: rest) ↔ rest.head? ≠ some (some (.symbol .minus)) ∧ Apart rest := by
  simp [apart_cons, minusSign]

@[simp] theorem apart_spaced : Apart (some token :: none :: rest) ↔ Apart rest := by simp [apart_cons, minusSign]

@[simp] theorem apart_append (follows : Follows rest) : Apart (pieces ++ rest) ↔ Apart pieces ∧ Apart rest := by
  rw [Apart, List.isChain_append, Apart, Apart]
  refine ⟨fun all => ⟨all.1, all.2.1⟩, fun both => ⟨both.1, both.2, fun last _ next member minus => ?_⟩⟩
  have which := follows next member
  rw [minus.2] at which
  exact absurd which (by decide)

/-- Up to any piece, the text is read as the tokens it is written from. -/
def ReadsAs (pieces : Pieces) : Prop :=
  ∀ count, tokenize (textOf (pieces.take count)) = some (toks (pieces.take count))

theorem tokens_lexed (pieces : Pieces) : Lexer.tokens (lexerPieces pieces) = (toks pieces).map Tok.lexed := by
  induction pieces with
  | nil => rfl
  | cons piece pieces ih =>
      cases piece with
      | none => exact ih
      | some token => exact congrArg (token.lexed :: ·) ih

theorem valid_take (valid : ∀ token ∈ toks pieces, token.Valid) (count : Nat) :
    ∀ token ∈ toks (pieces.take count), token.Valid := by
  rw [← List.take_append_drop count pieces, toks_append] at valid
  exact (List.forall_mem_append.mp valid).1

theorem tokenize_iff (valid : ∀ token ∈ toks pieces, token.Valid) :
    tokenize (textOf pieces) = some (toks pieces) ↔
      Lexer.lex (Lexer.text (lexerPieces pieces)) = some (Lexer.tokens (lexerPieces pieces)) := by
  rw [tokens_lexed, tokenize, textOf]
  constructor
  · intro read
    obtain ⟨tokens, lexed, told⟩ := Option.bind_eq_some_iff.mp read
    rw [lexed, map_lexed told]
  · intro lexed
    rw [lexed, Option.bind_some, mapM_ofLexed valid]

theorem lexed_minus (piece : Option Tok) : piece.map Tok.lexed = some (.symbol .minus) ↔ piece = minusSign := by
  rcases piece with _ | s | k | text | text | text | bytes <;> simp [minusSign, Tok.lexed]

/-- Text is read as it is written exactly when no two minus signs meet. -/
theorem readsAs_iff (close : Close pieces) : ReadsAs pieces ↔ Apart pieces := by
  have valid : ∀ piece ∈ lexerPieces pieces, Lexer.Piece.Valid piece := by
    intro piece member token written
    obtain ⟨source, sourceIn, rfl⟩ := List.mem_map.mp member
    obtain ⟨tok, rfl, rfl⟩ := Option.map_eq_some_iff.mp written
    exact lexed_valid (close.1 tok (List.mem_filterMap.mpr ⟨some tok, sourceIn, rfl⟩))
  have near : (lexerPieces pieces).IsChain fun left right => Fits left right ∨ Clash left right :=
    (List.isChain_map _).mpr close.2
  have apart : ((lexerPieces pieces).IsChain fun left right => ¬ Clash left right) ↔ Apart pieces := by
    rw [lexerPieces, List.isChain_map, Apart]
    simp only [Clash, lexed_minus]
  rw [← apart, ← Lexer.readsAs_iff valid near]
  refine forall_congr' fun count => ?_
  rw [tokenize_iff (valid_take close.1 count)]
  simp only [lexerPieces, List.map_take]

end Pieces

end StoolapMariadb.SqlGen
