import Z80Toolchain.Source.Tokenize
import Z80Toolchain.Proofs.Text.NumeralText

/-!
Which text spells which tokens. A text spells a list of token kinds if it is cut into lexemes of its
own whenever something follows it that could not belong to its last word. Spellings are put together
piece by piece, from words, numbers, marks and blanks, so that the tokens of a long text follow from
those of its parts.
-/
namespace Z80Toolchain

/-! ### Cutting off one lexeme -/

theorem lexemes_cons (c : Char) (rest : List Char) :
    lexemes (c :: rest) =
      Lexeme.first c rest :: lexemes (rest.drop ((Lexeme.first c rest).text.length - 1)) := by
  rw [lexemes]

/-- A lexeme that takes a given piece of the text leaves exactly the rest. -/
theorem lexemes_append {c : Char} {piece rest : List Char} {lexeme : Lexeme}
    (found : Lexeme.first c (piece ++ rest) = lexeme) (taken : lexeme.text = c :: piece) :
    lexemes (c :: (piece ++ rest)) = lexeme :: lexemes rest := by
  rw [lexemes_cons, found, taken]
  simp

namespace Lexeme

inductive Carry : List Lexeme → List Token.Kind → Prop
  | nil : Carry [] []
  | gap (text : List Char) {lexemes : List Lexeme} {kinds : List Token.Kind} :
      Carry lexemes kinds → Carry (⟨text, .gap⟩ :: lexemes) kinds
  | token (text : List Char) (kind : Token.Kind) {lexemes : List Lexeme}
      {kinds : List Token.Kind} :
      Carry lexemes kinds → Carry (ofToken text kind :: lexemes) (kind :: kinds)

theorem Carry.append {left right : List Lexeme} {first second : List Token.Kind}
    (carried : Carry left first) (others : Carry right second) :
    Carry (left ++ right) (first ++ second) := by
  induction carried with
  | nil => exact others
  | gap text _ induction => exact .gap text induction
  | token text kind _ induction => exact .token text kind induction

end Lexeme

/-! ### Spellings -/

/-- What may follow a word: the end, or a character that neither continues it nor makes it a label. -/
def Delimited (rest : List Char) : Prop :=
  ∀ c ∈ rest.head?, isNameChar c = false ∧ c ≠ ':'

theorem delimited_nil : Delimited [] := by
  simp [Delimited]

theorem delimited_cons {c : Char} (rest : List Char) (apart : isNameChar c = false)
    (noColon : c ≠ ':') : Delimited (c :: rest) := by
  simp [Delimited, apart, noColon]

/-- The text is cut into blanks and tokens of these kinds, whatever delimited text follows it. -/
def Spells (text : List Char) (kinds : List Token.Kind) : Prop :=
  ∀ rest, Delimited rest → ∃ pieces, lexemes (text ++ rest) = pieces ++ lexemes rest ∧
    pieces.flatMap Lexeme.text = text ∧ Lexeme.Carry pieces kinds

namespace Spells

theorem nil : Spells [] [] := by
  intro rest _
  exact ⟨[], rfl, rfl, .nil⟩

/-- A word or number in front of something that starts with a delimiter. -/
theorem append {left right : List Char} {first second : List Token.Kind}
    (spelled : Spells left first) (others : Spells right second)
    (apart : ∀ rest, Delimited rest → Delimited (right ++ rest)) :
    Spells (left ++ right) (first ++ second) := by
  intro rest delimited
  obtain ⟨pieces, cut, covered, carried⟩ := spelled (right ++ rest) (apart rest delimited)
  obtain ⟨more, cutMore, coveredMore, carriedMore⟩ := others rest delimited
  refine ⟨pieces ++ more, ?_, ?_, carried.append carriedMore⟩
  · rw [List.append_assoc, cut, cutMore, List.append_assoc]
  · rw [List.flatMap_append, covered, coveredMore]

/-- A character that is a token by itself, before anything. -/
theorem mark {c : Char} {kind : Token.Kind} {text : List Char} {kinds : List Token.Kind}
    (alone : ∀ rest, Lexeme.first c rest = Lexeme.ofToken [c] kind) (spelled : Spells text kinds) :
    Spells (c :: text) (kind :: kinds) := by
  intro rest delimited
  obtain ⟨pieces, cut, covered, carried⟩ := spelled rest delimited
  refine ⟨Lexeme.ofToken [c] kind :: pieces, ?_, ?_, .token [c] kind carried⟩
  · rw [List.cons_append, lexemes_cons, alone]
    simp [Lexeme.ofToken, cut]
  · simp [Lexeme.ofToken, covered]

theorem blank {text : List Char} {kinds : List Token.Kind} (spelled : Spells text kinds) :
    Spells (' ' :: text) kinds := by
  intro rest delimited
  obtain ⟨pieces, cut, covered, carried⟩ := spelled rest delimited
  refine ⟨⟨[' '], .gap⟩ :: pieces, ?_, ?_, .gap [' '] carried⟩
  · rw [List.cons_append, lexemes_cons]
    simp [Lexeme.first, cut]
  · simp [covered]

/-- One lexeme that does not reach into delimited text. -/
theorem single {c : Char} {text : List Char} {kind : Token.Kind}
    (found : ∀ rest, Delimited rest →
      Lexeme.first c (text ++ rest) = Lexeme.ofToken (c :: text) kind) :
    Spells (c :: text) [kind] := by
  intro rest delimited
  refine ⟨[Lexeme.ofToken (c :: text) kind], ?_, ?_, .token (c :: text) kind .nil⟩
  · exact lexemes_append (found rest delimited) rfl
  · simp [Lexeme.ofToken]

end Spells

def Stops (p : Char → Bool) (rest : List Char) : Prop :=
  ∀ c ∈ rest.head?, p c = false

instance decidableStops (p : Char → Bool) : (rest : List Char) → Decidable (Stops p rest)
  | [] => isTrue (by simp [Stops])
  | c :: _ => decidable_of_iff (p c = false) (by simp [Stops])

theorem stops_drop_while (p : Char → Bool) (text : List Char) : Stops p (text.dropWhile p) := by
  intro c first
  have outside := List.head?_dropWhile_not p text
  rw [first] at outside
  simpa using outside

theorem take_while_of_stops {p : Char → Bool} {text rest : List Char}
    (inside : ∀ c ∈ text, p c = true) (stops : Stops p rest) :
    (text ++ rest).takeWhile p = text := by
  rw [List.takeWhile_append_of_pos inside]
  cases rest with
  | nil => simp
  | cons c rest => simp [stops c rfl]

theorem drop_while_of_stops {p : Char → Bool} {text rest : List Char}
    (inside : ∀ c ∈ text, p c = true) (stops : Stops p rest) :
    (text ++ rest).dropWhile p = rest := by
  rw [List.dropWhile_append_of_pos inside]
  cases rest with
  | nil => rfl
  | cons c rest => simp [stops c rfl]

theorem Delimited.stops {rest : List Char} (delimited : Delimited rest) {p : Char → Bool}
    (name : ∀ c, p c = true → isNameChar c = true) : Stops p rest := by
  intro c first
  cases value : p c with
  | false => rfl
  | true =>
    have apart := (delimited c first).1
    simp [name c value] at apart

/-! ### Words -/

def isWord : List Char → Bool
  | [] => false
  | c :: rest => isNameStart c && rest.all isNameChar && (c :: rest).length ≤ scanCapacity

theorem is_digit_eq_false_of_is_name_start {c : Char} (start : isNameStart c = true) :
    c.isDigit = false := by
  delta isNameStart Char.isAlpha Char.isUpper Char.isLower at start
  simp only [Bool.or_eq_true, beq_iff_eq, Bool.and_eq_true, decide_eq_true_eq,
    UInt32.le_iff_toNat_le] at start
  simp only [Char.isDigit, Bool.and_eq_false_iff, decide_eq_false_iff_not, UInt32.le_iff_toNat_le]
  rcases start with (upper | lower) | rfl
  · have := upper.1
    simp at this ⊢
    omega
  · have := lower.1
    simp at this ⊢
    omega
  · decide

/-- A character that starts a name starts no other lexeme. -/
theorem Lexeme.first_of_is_name_start {c : Char} (start : isNameStart c = true) (rest : List Char) :
    Lexeme.first c rest = name (c :: rest.takeWhile isNameChar) (rest.dropWhile isNameChar) := by
  have noDigit := is_digit_eq_false_of_is_name_start start
  unfold Lexeme.first
  split <;> first
    | exact absurd start (by decide)
    | simp [noDigit, start]

theorem is_word_cons {c : Char} {text : List Char} :
    isWord (c :: text) = true ↔
      isNameStart c = true ∧ (∀ d ∈ text, isNameChar d = true) ∧
        (c :: text).length ≤ scanCapacity := by
  simp only [isWord, Bool.and_eq_true, List.all_eq_true, decide_eq_true_eq, and_assoc]

theorem is_name_char_of_is_name_start {c : Char} (start : isNameStart c = true) :
    isNameChar c = true := by
  simp only [isNameStart, Bool.or_eq_true] at start
  rcases start with letter | dot
  · simp [isNameChar, Char.isAlphanum, letter]
  · simp [isNameChar, dot]

theorem is_name_char_of_is_word {text : List Char} (word : isWord text = true) :
    ∀ c ∈ text, isNameChar c = true := by
  cases text with
  | nil => cases word
  | cons c text =>
    obtain ⟨start, inside, -⟩ := is_word_cons.mp word
    exact List.forall_mem_cons.mpr ⟨is_name_char_of_is_name_start start, inside⟩

theorem Lexeme.first_word {c : Char} {text rest : List Char} (word : isWord (c :: text) = true)
    (delimited : Delimited rest) :
    first c (text ++ rest) = ofToken (c :: text) (.text (String.ofList (c :: text))) := by
  obtain ⟨start, inside, short⟩ := is_word_cons.mp word
  have stops : Stops isNameChar rest := delimited.stops fun _ => id
  have noColon : rest.head? ≠ some ':' := fun colon => (delimited ':' colon).2 rfl
  rw [first_of_is_name_start start, take_while_of_stops inside stops, drop_while_of_stops inside stops,
    name, if_neg (by omega), if_neg noColon]

theorem Spells.word {text : List Char} (word : isWord text = true) :
    Spells text [.text (String.ofList text)] := by
  cases text with
  | nil => cases word
  | cons c text => exact Spells.single fun rest delimited => Lexeme.first_word word delimited

/-! ### Numbers -/

theorem is_name_char_of_is_numeral_char {c : Char} (inside : isNumeralChar c = true) :
    isNameChar c = true := by
  simp only [isNumeralChar, isNameChar, Bool.or_eq_true] at inside ⊢
  rcases inside with letter | line
  · exact .inl (.inl (.inl letter))
  · exact .inl (.inr line)

/-- A digit starts a number and no other lexeme. -/
theorem Lexeme.first_of_is_digit {c : Char} (digit : c.isDigit = true) (rest : List Char) :
    Lexeme.first c rest = number (c :: rest.takeWhile isNumeralChar) := by
  unfold Lexeme.first
  split <;> first
    | exact absurd digit (by decide)
    | simp [digit]

theorem Spells.number {c : Char} {text : List Char} {value : Nat} (digit : c.isDigit = true)
    (inside : ∀ c ∈ text, isNumeralChar c = true)
    (read : Lexeme.number (c :: text) = Lexeme.ofToken (c :: text) (.integer value)) :
    Spells (c :: text) [.integer value] := by
  refine Spells.single fun rest delimited => ?_
  have stops : Stops isNumeralChar rest := delimited.stops fun _ => is_name_char_of_is_numeral_char
  rw [Lexeme.first_of_is_digit digit, take_while_of_stops inside stops, read]

theorem is_numeral_char_of_is_digit {radix : Nat} {c : Char} (digit : Numeral.isDigit radix c = true) :
    isNumeralChar c = true := by
  simp [isNumeralChar, Numeral.is_alphanum_of_is_digit digit]

theorem Lexeme.number_of_digits {text digits : List Char} {radix value : Nat} (some : digits ≠ [])
    (all : ∀ c ∈ digits, Numeral.isDigit radix c = true)
    (denoted : Numeral.value radix digits = value) (limited : value ≤ integerLimit) :
    numberOf text radix digits = ofToken text (.integer value) := by
  have allDigits : digits.all (Numeral.isDigit radix) = true := List.all_eq_true.mpr all
  rw [numberOf, if_neg (by simp [some, allDigits]), denoted, if_pos limited]

/-- Padded hexadecimal digits behind their mark. -/
theorem Spells.hex {width value : Nat} (positive : 0 < width) (short : width ≤ 8)
    (bounded : value < Nat.pow 16 width) (limited : value ≤ integerLimit) :
    Spells ("0x" ++ Numeral.hex width value).toList [.integer value] := by
  have length : (Nat.toDigits 16 value).length ≤ width :=
    (Nat.length_toDigits_le_iff (by decide) positive).mpr bounded
  have written : ("0x" ++ Numeral.hex width value).toList =
      '0' :: 'x' :: (Nat.toDigits 16 value).leftpad width '0' := by
    simp [Numeral.hex]
  have digits := Numeral.is_digit_leftpad (by decide) width
    (@Numeral.is_digit_to_digits 16 (by decide) (by decide) value)
  have denoted := (Numeral.value_leftpad 16 width (Nat.toDigits 16 value)).trans
    (Numeral.value_to_digits (by decide) (by decide) value)
  have size : ((Nat.toDigits 16 value).leftpad width '0').length = width := by
    rw [List.length_leftpad]
    omega
  rw [written]
  generalize (Nat.toDigits 16 value).leftpad width '0' = padded at digits denoted size
  refine Spells.number rfl ?_ ?_
  · intro c member
    rcases List.mem_cons.mp member with rfl | inside
    · rfl
    · exact is_numeral_char_of_is_digit (digits c inside)
  · have fits : ¬ scanCapacity < ('0' :: 'x' :: padded).length := by
      simp only [scanCapacity, List.length_cons]
      omega
    have some : padded ≠ [] := by
      rintro rfl
      simp at size
      omega
    rw [Lexeme.number, if_neg fits]
    exact Lexeme.number_of_digits some digits denoted limited

theorem Spells.decimal {value : Nat} (limited : value ≤ integerLimit) :
    Spells (Numeral.decimal value).toList [.integer value] := by
  have digits := @Numeral.is_digit_to_digits 10 (by decide) (by decide) value
  have denoted := @Numeral.value_to_digits 10 (by decide) (by decide) value
  have length : (Nat.toDigits 10 value).length ≤ 10 := by
    refine (Nat.length_toDigits_le_iff (by decide) (by decide)).mpr ?_
    simp only [integerLimit] at limited
    omega
  have decimals : ∀ c ∈ Nat.toDigits 10 value, c.isDigit = true := fun c member =>
    Nat.isDigit_of_mem_toDigits (by decide) (by decide) member
  have written : (Numeral.decimal value).toList = Nat.toDigits 10 value := by
    simp [Numeral.decimal]
  rw [written]
  cases text : Nat.toDigits 10 value with
  | nil => exact absurd text Nat.toDigits_ne_nil
  | cons c rest =>
    rw [text] at digits denoted length decimals
    refine Spells.number (decimals c (by simp)) ?_ ?_
    · intro c member
      exact is_numeral_char_of_is_digit (digits c (by simp [member]))
    · have fits : ¬ scanCapacity < (c :: rest).length := by
        simp only [scanCapacity]
        omega
      rw [Lexeme.number, if_neg fits, Numeral.radix_and_digits_of_decimal digits]
      exact Lexeme.number_of_digits (List.cons_ne_nil _ _) digits denoted limited

end Z80Toolchain
