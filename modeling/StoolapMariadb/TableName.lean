import Mathlib.Algebra.Group.Nat.Defs
import StoolapMariadb.Lib.PrefixCode
import StoolapMariadb.Lib.Utf8

namespace StoolapMariadb.TableName

/-! Stoolap's name for the table at a path of MariaDB's: escaped, so that two
tables never share one, and shortened past what stoolap can hold. -/

def Ascii (text : List Char) : Prop := ∀ c ∈ text, c.toNat < 128

/-- `to_lowercase`, of a character and of a text. On ASCII both are the
letters' own. -/
structure Lowercase where
  char : Char → List Char
  text : List Char → List Char
  char_ascii : ∀ c, c.toNat < 128 → char c = [c.toLower]
  text_ascii : ∀ name, Ascii name → text name = name.map Char.toLower

variable (lower : Lowercase)

def maxTableName : Nat := 255

/-- `_2` and the digits of the hash. -/
def tail : Nat := 2 + 16

def total (lengths : List Nat) : Nat := lengths.foldr (· + ·) 0

@[simp] theorem total_nil : total [] = 0 := rfl

@[simp] theorem total_cons (length : Nat) (lengths : List Nat) :
    total (length :: lengths) = length + total lengths := rfl

/-- The bytes a character takes in stoolap, which may keep it lowercased. -/
def storedLen (c : Char) : Nat := max c.utf8Size (total ((lower.char c).map Char.utf8Size))

/-- The most characters that leave room for the tail; `len` bytes went
before. -/
def keptChars (len : Nat) : List Char → List Char
  | [] => []
  | c :: name =>
      let len := len + storedLen lower c
      if len + tail > maxTableName then [] else c :: keptChars len name

/-- FNV-1a, 64 bits. -/
def fnv (bytes : List UInt8) : UInt64 :=
  bytes.foldl (fun hash byte => (hash ^^^ byte.toUInt64) * 0x100000001b3) 0xcbf29ce484222325

/-- `016x`. -/
def hexDigits (hash : UInt64) : List Char :=
  (List.range 16).reverse.map fun place => Nat.digitChar (hash.toNat / 16 ^ place % 16)

def shortened (name : List Char) : List Char :=
  keptChars lower 0 name ++ '_' :: '2' :: hexDigits (fnv (Utf8.encode (lower.text name)))

/-- The name fits as it is. -/
def Fits (name : List Char) : Prop := total (name.map (storedLen lower)) ≤ maxTableName

instance (name : List Char) : Decidable (Fits lower name) :=
  inferInstanceAs (Decidable (_ ≤ _))

def fitName (name : List Char) : List Char :=
  if Fits lower name then name else shortened lower name

/-- `fit_table_name`, over `stoolap_fit_table_name`: a fit of the same length
is no fit to copy. -/
def fitTableName (flat : List Char) : List Char :=
  if (Utf8.encode (fitName lower flat)).length = (Utf8.encode flat).length then flat
  else fitName lower flat

/-- The path less its leading `./`. -/
def relative : List Char → List Char
  | '.' :: '/' :: path => path
  | path => path

def escapeChar : Char → List Char
  | '_' => ['_', '0']
  | '/' => ['_', '1']
  | c => [c]

def escaped (path : List Char) : List Char := (relative path).flatMap escapeChar

def stoolapTableFromPath (path : List Char) : List Char := fitTableName lower (escaped path)

/-- Stoolap's match of table names. -/
def Matches (first second : List Char) : Prop := lower.text first = lower.text second

section Escaping

theorem escapeChar_other {c : Char} (notUnderscore : c ≠ '_') (notSlash : c ≠ '/') : escapeChar c = [c] := by
  unfold escapeChar
  split
  · exact absurd rfl notUnderscore
  · exact absurd rfl notSlash
  · rfl

theorem escapeChar_cases (c : Char) :
    c = '_' ∧ escapeChar c = ['_', '0'] ∨ c = '/' ∧ escapeChar c = ['_', '1'] ∨
      c ≠ '_' ∧ c ≠ '/' ∧ escapeChar c = [c] := by
  by_cases underscore : c = '_'
  · exact .inl ⟨underscore, by rw [underscore]; rfl⟩
  · by_cases slash : c = '/'
    · exact .inr (.inl ⟨slash, by rw [slash]; rfl⟩)
    · exact .inr (.inr ⟨underscore, slash, escapeChar_other underscore slash⟩)

theorem escapeChar_prefixFree : PrefixCode.PrefixFree escapeChar where
  nonempty := fun c => by
    rcases escapeChar_cases c with ⟨-, same⟩ | ⟨-, same⟩ | ⟨-, -, same⟩ <;> simp [same]
  apart := fun first second begins => by
    rcases escapeChar_cases first with ⟨rfl, same⟩ | ⟨rfl, same⟩ | ⟨one, two, same⟩ <;>
      rcases escapeChar_cases second with ⟨rfl, other⟩ | ⟨rfl, other⟩ | ⟨three, four, other⟩ <;>
      simp_all

/-- After an underscore the escaping writes `0` or `1`. -/
def Next (first second : Char) : Prop := first = '_' → second = '0' ∨ second = '1'

theorem escapeChar_isChain (c : Char) : (escapeChar c).IsChain Next := by
  rcases escapeChar_cases c with ⟨-, same⟩ | ⟨-, same⟩ | ⟨-, -, same⟩ <;> simp [same, Next]

theorem escapeChar_last (c : Char) : ∀ last ∈ (escapeChar c).getLast?, ∀ other, Next last other := by
  intro last isLast other underscore
  rcases escapeChar_cases c with ⟨-, same⟩ | ⟨-, same⟩ | ⟨no, -, same⟩ <;> simp_all

theorem escaped_isChain (text : List Char) : (text.flatMap escapeChar).IsChain Next :=
  PrefixCode.isChain_flatMap escapeChar_isChain escapeChar_last text

/-- ASCII lowercasing makes letters only. -/
theorem toLower_cases (c : Char) : c.toLower = c ∨ 97 ≤ c.toLower.toNat := by
  unfold Char.toLower
  split
  · rename_i upper
    obtain ⟨least, most⟩ := upper
    rw [ge_iff_le, UInt32.le_iff_toNat_le] at least
    rw [UInt32.le_iff_toNat_le] at most
    have value : (c.val + ('a'.val - 'A'.val)).toNat = c.val.toNat + 32 := by
      rw [UInt32.toNat_add]
      exact Nat.mod_eq_of_lt (Nat.lt_of_le_of_lt (Nat.add_le_add_right most _) (by decide))
    refine .inr ?_
    change 97 ≤ (c.val + ('a'.val - 'A'.val)).toNat
    rw [value]
    exact Nat.add_le_add_right least 32
  · exact .inl rfl

theorem eq_of_toLower_eq {c other : Char} (notLetter : other.toNat < 97) (same : c.toLower = other) :
    c = other := by
  rcases toLower_cases c with unchanged | letter
  · exact unchanged.symm.trans same
  · rw [same] at letter
    omega

theorem escapeChar_toLower (c : Char) : escapeChar c.toLower = (escapeChar c).map Char.toLower := by
  rcases escapeChar_cases c with ⟨rfl, same⟩ | ⟨rfl, same⟩ | ⟨one, two, same⟩
  · decide
  · decide
  · have noUnderscore : c.toLower ≠ '_' := fun same => one (eq_of_toLower_eq (by decide) same)
    have noSlash : c.toLower ≠ '/' := fun same => two (eq_of_toLower_eq (by decide) same)
    rw [same, escapeChar_other noUnderscore noSlash]
    rfl

theorem flatMap_toLower (text : List Char) :
    (text.flatMap escapeChar).map Char.toLower = (text.map Char.toLower).flatMap escapeChar := by
  simp only [List.map_flatMap, List.flatMap_map, ← escapeChar_toLower]

theorem escapeChar_ascii {c : Char} (ascii : c.toNat < 128) : Ascii (escapeChar c) := by
  intro other member
  rcases escapeChar_cases c with ⟨-, same⟩ | ⟨-, same⟩ | ⟨-, -, same⟩ <;>
    rw [same] at member <;> simp only [List.mem_cons, List.not_mem_nil, or_false] at member
  · rcases member with rfl | rfl <;> decide
  · rcases member with rfl | rfl <;> decide
  · rw [member]
    exact ascii

theorem relative_subset (path : List Char) : relative path ⊆ path := by
  unfold relative
  split
  · exact fun c member => List.mem_cons_of_mem _ (List.mem_cons_of_mem _ member)
  · exact fun c member => member

theorem escaped_ascii {path : List Char} (ascii : Ascii path) : Ascii (escaped path) := by
  intro c member
  obtain ⟨before, inPath, written⟩ := List.mem_flatMap.mp member
  exact escapeChar_ascii (ascii before (relative_subset path inPath)) c written

/-- Paths with one name, but for the case of letters, differ by it alone. -/
theorem relative_of_escaped {first second : List Char}
    (same : (escaped first).map Char.toLower = (escaped second).map Char.toLower) :
    (relative first).map Char.toLower = (relative second).map Char.toLower := by
  rw [escaped, escaped, flatMap_toLower, flatMap_toLower] at same
  exact escapeChar_prefixFree.flatMap_injective same

end Escaping

section Lengths

theorem encode_length (text : List Char) : (Utf8.encode text).length = total (text.map Char.utf8Size) := by
  induction text with
  | nil => rfl
  | cons c text ih => simp only [Utf8.encode_cons, List.length_append, String.length_utf8EncodeChar, ih,
      List.map_cons, total_cons]

theorem encode_length_le (text : List Char) :
    (Utf8.encode text).length ≤ total (text.map (storedLen lower)) := by
  induction text with
  | nil => exact Nat.le_refl 0
  | cons c text ih =>
      simp only [Utf8.encode_cons, List.length_append, String.length_utf8EncodeChar, List.map_cons,
        total_cons]
      exact Nat.add_le_add (Nat.le_max_left _ _) ih

/-- What is kept leaves room for the tail. -/
theorem keptChars_stored {len : Nat} (room : len + tail ≤ maxTableName) (name : List Char) :
    len + total ((keptChars lower len name).map (storedLen lower)) + tail ≤ maxTableName := by
  induction name generalizing len with
  | nil => exact room
  | cons c name ih =>
      simp only [keptChars]
      split
      · exact room
      · rename_i fits
        have next := ih (Nat.le_of_not_gt fits)
        simp only [List.map_cons, total_cons]
        omega

theorem hexDigits_spec (hash : UInt64) :
    (hexDigits hash).length = 16 ∧ ∀ c ∈ hexDigits hash, c.utf8Size = 1 ∧ c.toNat < 128 := by
  refine ⟨by simp [hexDigits], fun c member => ?_⟩
  obtain ⟨place, -, rfl⟩ := List.mem_map.mp member
  have digits : ∀ digit < 16, (Nat.digitChar digit).utf8Size = 1 ∧ (Nat.digitChar digit).toNat < 128 := by
    decide
  exact digits _ (Nat.mod_lt _ (by decide))

theorem tail_length (hash : UInt64) : (Utf8.encode ('_' :: '2' :: hexDigits hash)).length = tail := by
  obtain ⟨count, each⟩ := hexDigits_spec hash
  have ones : (hexDigits hash).map Char.utf8Size = List.replicate 16 1 := by
    rw [List.eq_replicate_iff, List.length_map]
    refine ⟨count, fun size member => ?_⟩
    obtain ⟨c, inDigits, rfl⟩ := List.mem_map.mp member
    exact (each c inDigits).1
  rw [encode_length, List.map_cons, List.map_cons, ones]
  decide

/-- A fitted name is never longer than stoolap can hold. -/
theorem fitName_length (name : List Char) : (Utf8.encode (fitName lower name)).length ≤ maxTableName := by
  unfold fitName
  split
  · rename_i fits
    exact Nat.le_trans (encode_length_le lower name) fits
  · have kept := @keptChars_stored lower 0 (by decide) name
    have bytes := encode_length_le lower (keptChars lower 0 name)
    have last := tail_length (fnv (Utf8.encode (lower.text name)))
    unfold shortened Utf8.encode at *
    rw [List.flatMap_append, List.length_append]
    omega

end Lengths

section Names

variable {lower}

theorem storedLen_ascii {c : Char} (ascii : c.toNat < 128) : storedLen lower c = 1 := by
  have codes : ∀ code < 128, (Char.ofNat code).utf8Size = 1 ∧ (Char.ofNat code).toLower.utf8Size = 1 := by
    decide
  obtain ⟨own, lowercased⟩ := codes c.toNat ascii
  rw [Char.ofNat_toNat] at own lowercased
  simp only [storedLen, lower.char_ascii c ascii, List.map_cons, List.map_nil, total_cons, total_nil,
    own, lowercased, Nat.add_zero, Nat.max_self]

theorem stored_ascii {name : List Char} (ascii : Ascii name) :
    total (name.map (storedLen lower)) = name.length := by
  induction name with
  | nil => rfl
  | cons c name ih =>
      rw [List.map_cons, total_cons, storedLen_ascii (ascii c List.mem_cons_self),
        ih fun other member => ascii other (List.mem_cons_of_mem _ member), List.length_cons, Nat.add_comm]

theorem encode_ascii {name : List Char} (ascii : Ascii name) : (Utf8.encode name).length = name.length := by
  have codes : ∀ code < 128, (Char.ofNat code).utf8Size = 1 := by decide
  rw [encode_length]
  induction name with
  | nil => rfl
  | cons c name ih =>
      have own := codes c.toNat (ascii c List.mem_cons_self)
      rw [Char.ofNat_toNat] at own
      rw [List.map_cons, total_cons, own, ih fun other member => ascii other (List.mem_cons_of_mem _ member),
        List.length_cons, Nat.add_comm]

theorem fits_ascii {name : List Char} (ascii : Ascii name) :
    Fits lower name ↔ name.length ≤ maxTableName := by
  rw [Fits, stored_ascii ascii]

theorem keptChars_ascii {name : List Char} (ascii : Ascii name) {len : Nat} (room : len ≤ 237) :
    keptChars lower len name = name.take (237 - len) := by
  induction name generalizing len with
  | nil => rw [List.take_nil]; rfl
  | cons c name ih =>
      simp only [keptChars, storedLen_ascii (ascii c List.mem_cons_self), tail, maxTableName]
      split
      · have full : 237 - len = 0 := by omega
        rw [full, List.take_zero]
      · have more : 237 - len = 237 - (len + 1) + 1 := by omega
        rw [more, List.take_succ_cons,
          ih (fun other member => ascii other (List.mem_cons_of_mem _ member)) (by omega)]

theorem shortened_ascii {name : List Char} (ascii : Ascii name) : Ascii (shortened lower name) := by
  intro c member
  rcases List.mem_append.mp member with kept | last
  · rw [keptChars_ascii ascii (Nat.zero_le _)] at kept
    exact ascii c (List.mem_of_mem_take kept)
  · rcases List.mem_cons.mp last with rfl | last
    · decide
    · rcases List.mem_cons.mp last with rfl | digit
      · decide
      · exact ((hexDigits_spec _).2 c digit).2

/-- A name past the limit is replaced. -/
theorem fitTableName_long {name : List Char} (ascii : Ascii name) (long : ¬ Fits lower name) :
    fitTableName lower name = shortened lower name := by
  have least : maxTableName < name.length := Nat.lt_of_not_le fun fits => long ((fits_ascii ascii).mpr fits)
  have most := fitName_length lower name
  rw [fitTableName, if_neg, fitName, if_neg long]
  rw [encode_ascii ascii]
  omega

theorem fitTableName_fits {name : List Char} (fits : Fits lower name) : fitTableName lower name = name := by
  simp only [fitTableName, fitName, if_pos fits, ite_self]

theorem fitTableName_length (name : List Char) :
    (Utf8.encode (fitTableName lower name)).length ≤ maxTableName := by
  have most := fitName_length lower name
  unfold fitTableName
  split
  · rename_i same
    rw [← same]
    exact most
  · exact most

theorem matches_ascii {first second : List Char} (firstAscii : Ascii first) (secondAscii : Ascii second) :
    Matches lower first second ↔ first.map Char.toLower = second.map Char.toLower := by
  rw [Matches, lower.text_ascii first firstAscii, lower.text_ascii second secondAscii]

/-- The tail of a shortened name is none the escaping writes. -/
theorem escaped_ne_shortened (text name : List Char) :
    (text.flatMap escapeChar).map Char.toLower ≠ (shortened lower name).map Char.toLower := by
  intro same
  have chain := escaped_isChain (text.map Char.toLower)
  rw [← flatMap_toLower, same, shortened, List.map_append, List.map_cons, List.map_cons] at chain
  rcases PrefixCode.related_of_isChain chain rfl with zero | one
  · exact absurd zero (by decide)
  · exact absurd one (by decide)

/-- Names that differ by case alone are shortened to such names. -/
theorem shortened_toLower {first second : List Char} (firstAscii : Ascii first) (secondAscii : Ascii second)
    (same : first.map Char.toLower = second.map Char.toLower) :
    (shortened lower first).map Char.toLower = (shortened lower second).map Char.toLower := by
  have hashed : lower.text first = lower.text second := (matches_ascii firstAscii secondAscii).mpr same
  rw [shortened, shortened, keptChars_ascii firstAscii (Nat.zero_le _),
    keptChars_ascii secondAscii (Nat.zero_le _), hashed, List.map_append, List.map_append, List.map_take,
    List.map_take, same]

theorem fits_of_toLower {first second : List Char} (firstAscii : Ascii first) (secondAscii : Ascii second)
    (same : first.map Char.toLower = second.map Char.toLower) : Fits lower first ↔ Fits lower second := by
  have lengths := congrArg List.length same
  rw [List.length_map, List.length_map] at lengths
  rw [fits_ascii firstAscii, fits_ascii secondAscii, lengths]

/-- Two paths share a stoolap name, as stoolap matches names, only when they
differ by the case of letters; no shortened name is that of a path that fits,
and case variants of a path too long for it still share theirs. -/
theorem names_collide_by_case_only (lower : Lowercase) :
    (∀ path, (Utf8.encode (stoolapTableFromPath lower path)).length ≤ maxTableName ∧
      (Fits lower (escaped path) → stoolapTableFromPath lower path = escaped path)) ∧
    ∀ first second, Ascii first → Ascii second →
      (Fits lower (escaped first) → Fits lower (escaped second) →
        Matches lower (stoolapTableFromPath lower first) (stoolapTableFromPath lower second) →
        (relative first).map Char.toLower = (relative second).map Char.toLower) ∧
      (Fits lower (escaped first) → ¬ Fits lower (escaped second) →
        ¬ Matches lower (stoolapTableFromPath lower first) (stoolapTableFromPath lower second)) ∧
      (¬ Fits lower (escaped first) →
        (relative first).map Char.toLower = (relative second).map Char.toLower →
        Matches lower (stoolapTableFromPath lower first) (stoolapTableFromPath lower second)) := by
  refine ⟨fun path => ⟨fitTableName_length _, fitTableName_fits⟩, fun first second firstAscii secondAscii => ?_⟩
  have one := escaped_ascii firstAscii
  have two := escaped_ascii secondAscii
  simp only [stoolapTableFromPath]
  refine ⟨fun fits fitsToo same => ?_, fun fits long same => ?_, fun long same => ?_⟩
  · rw [fitTableName_fits fits, fitTableName_fits fitsToo, matches_ascii one two] at same
    exact relative_of_escaped same
  · rw [fitTableName_fits fits, fitTableName_long two long, matches_ascii one (shortened_ascii two)] at same
    exact escaped_ne_shortened _ _ same
  · have sameEscaped : (escaped first).map Char.toLower = (escaped second).map Char.toLower := by
      rw [escaped, escaped, flatMap_toLower, flatMap_toLower, same]
    have longToo : ¬ Fits lower (escaped second) := fun fits => long ((fits_of_toLower one two sameEscaped).mpr fits)
    rw [fitTableName_long one long, fitTableName_long two longToo,
      matches_ascii (shortened_ascii one) (shortened_ascii two)]
    exact shortened_toLower one two sameEscaped

/-- Lowercasing that knows ASCII alone. -/
def asciiLowercase : Lowercase where
  char c := [c.toLower]
  text name := name.map Char.toLower
  char_ascii := fun _ _ => rfl
  text_ascii := fun _ _ => rfl

/-- `./d/T` and `d/t`, and a name of 255 letters that its database makes too
long. -/
theorem names_collide_by_case_only_sample :
    let table (path : List Char) := stoolapTableFromPath asciiLowercase path
    let long (c : Char) := 'd' :: '/' :: List.replicate 255 c
    (relative ['.', '/', 'd', '/', 'T']).map Char.toLower = (relative ['d', '/', 't']).map Char.toLower ∧
      ¬ Matches asciiLowercase (table ['d', '/', 't']) (table (long 'a')) ∧
      Matches asciiLowercase (table (long 'a')) (table (long 'A')) := by
  intro table long
  have letters (text : List Char) (all : text.all (fun c => c.toNat < 128) = true) : Ascii text :=
    fun c member => of_decide_eq_true (List.all_eq_true.mp all c member)
  have upper : Ascii ['.', '/', 'd', '/', 'T'] := letters _ (by decide)
  have lower : Ascii ['d', '/', 't'] := letters _ (by decide)
  have longAscii (c : Char) (ascii : c.toNat < 128) : Ascii (long c) := by
    intro other member
    rcases List.mem_cons.mp member with rfl | member
    · decide
    · rcases List.mem_cons.mp member with rfl | member
      · decide
      · rw [List.eq_of_mem_replicate member]
        exact ascii
  have tooLong : ¬ Fits asciiLowercase (escaped (long 'a')) := by decide +kernel
  have names := (names_collide_by_case_only asciiLowercase).2
  exact ⟨(names _ _ upper lower).1 (by decide) (by decide) (by unfold Matches; decide),
    (names _ _ lower (longAscii 'a' (by decide))).2.1 (by decide) tooLong,
    (names _ _ (longAscii 'a' (by decide)) (longAscii 'A' (by decide))).2.2 tooLong (by decide +kernel)⟩

end Names

end StoolapMariadb.TableName
