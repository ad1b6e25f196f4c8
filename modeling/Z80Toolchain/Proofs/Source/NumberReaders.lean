import Mathlib.Data.List.Forall2
import Mathlib.Data.Nat.Digits.Defs
import Z80Toolchain.Machine.Address
import Z80Toolchain.Proofs.Source.LinesApart

/-!
Two readers of numbers. Options read addresses digit by digit and stop at the first digit that is
wrong or too much; the tokenizer takes a whole run of letters and digits and asks afterwards what it
is. Both are compared with what a number is as a text: a mark for its base, and digits that count by
their places. They agree on every text that the tokenizer can take for a number. Longer texts are left
out: the tokenizer refuses them whatever they denote.
-/
namespace Z80Toolchain

namespace Numeral

/-! ### Written numbers -/

def IsFigure (radix : Nat) (c : Char) (digit : Nat) : Prop :=
  digit < radix ∧ c.toLower = digit.digitChar

/-- The digits denote the number by their places, the last one counting ones. -/
def Denotes (radix : Nat) (digits : List Char) (number : Nat) : Prop :=
  ∃ figures, List.Forall₂ (IsFigure radix) digits.reverse figures ∧
    Nat.ofDigits radix figures = number

/-- The text of a number: decimal digits, or digits to the base that a mark in front of them names. -/
inductive Writes : List Char → Nat → Prop
  | decimal {digits : List Char} {number : Nat} (some : digits ≠ [])
      (denotes : Denotes 10 digits number) : Writes digits number
  | hexadecimal {mark : Char} {digits : List Char} {number : Nat} (marked : mark = 'x' ∨ mark = 'X')
      (some : digits ≠ []) (denotes : Denotes 16 digits number) :
      Writes ('0' :: mark :: digits) number
  | binary {mark : Char} {digits : List Char} {number : Nat} (marked : mark = 'b' ∨ mark = 'B')
      (some : digits ≠ []) (denotes : Denotes 2 digits number) :
      Writes ('0' :: mark :: digits) number

theorem denotes_nil {radix number : Nat} : Denotes radix [] number ↔ number = 0 := by
  simp [Denotes, eq_comm]

theorem denotes_append {radix : Nat} {digits : List Char} {c : Char} {number : Nat} :
    Denotes radix (digits ++ [c]) number ↔
      ∃ earlier digit, Denotes radix digits earlier ∧ IsFigure radix c digit ∧
        earlier * radix + digit = number := by
  simp only [Denotes, List.reverse_append, List.reverse_singleton, List.singleton_append,
    List.forall₂_cons_left_iff]
  constructor
  · rintro ⟨_, ⟨digit, figures, here, others, rfl⟩, rfl⟩
    refine ⟨_, digit, ⟨figures, others, rfl⟩, here, ?_⟩
    rw [Nat.ofDigits_cons, Nat.mul_comm, Nat.add_comm]
  · rintro ⟨_, digit, ⟨figures, others, rfl⟩, here, rfl⟩
    refine ⟨_, ⟨digit, figures, here, others, rfl⟩, ?_⟩
    rw [Nat.ofDigits_cons, Nat.mul_comm, Nat.add_comm]

/-! ### Digits -/

theorem digit_value?_eq_none_of_wide {c : Char} (wide : 128 ≤ c.toNat) (radix : Nat) :
    digitValue? radix c = none := by
  have beyond (d : Char) (narrow : d.toNat < 128) : ¬ c ≤ d := by
    rw [Char.le_def, UInt32.le_iff_toNat_le]
    exact Nat.not_le.mpr (Nat.lt_of_lt_of_le narrow wide)
  simp [digitValue?, beyond '9' (by decide), beyond 'z' (by decide), beyond 'Z' (by decide)]

theorem to_lower_of_wide {c : Char} (wide : 128 ≤ c.toNat) : c.toLower = c := by
  have beyond : ¬ c.val ≤ 'Z'.val := by
    rw [UInt32.le_iff_toNat_le]
    exact Nat.not_le.mpr (Nat.lt_of_lt_of_le (by decide) wide)
  exact dif_neg fun inside => beyond inside.2

/-- By a table of the first 128 characters; no other one is a digit. -/
theorem digit_value?_sixteen {c : Char} {digit : Nat} (bounded : digit < 16) :
    digitValue? 16 c = some digit ↔ c.toLower = digit.digitChar := by
  have table : ∀ code : Fin 128, ∀ digit : Fin 16,
      digitValue? 16 (Char.ofNat code) = some digit.val ↔
        (Char.ofNat code).toLower = digit.val.digitChar := by
    decide +kernel
  by_cases narrow : c.toNat < 128
  · have found := table ⟨c.toNat, narrow⟩ ⟨digit, bounded⟩
    rwa [Char.ofNat_toNat] at found
  · have wide : 128 ≤ c.toNat := by omega
    have figure : ∀ digit : Fin 16, digit.val.digitChar.toNat < 128 := by decide
    rw [digit_value?_eq_none_of_wide wide, to_lower_of_wide wide]
    constructor
    · intro none
      cases none
    · rintro rfl
      exact absurd (figure ⟨digit, bounded⟩) narrow

theorem digit_value?_eq_some_iff {radix : Nat} (small : radix ≤ 16) {c : Char} {digit : Nat} :
    digitValue? radix c = some digit ↔ IsFigure radix c digit := by
  have below : digitValue? radix c = some digit ↔ digit < radix ∧ digitValue? 16 c = some digit := by
    simp only [digitValue?, Option.filter_eq_some_iff, decide_eq_true_eq]
    constructor
    · rintro ⟨found, bounded⟩
      exact ⟨bounded, found, by omega⟩
    · rintro ⟨bounded, found, -⟩
      exact ⟨found, bounded⟩
  rw [below, IsFigure]
  exact and_congr_right fun bounded => digit_value?_sixteen (by omega)

/-! ### What is read -/

section
variable {radix : Nat} (small : radix ≤ 16) {digits : List Char} {number : Nat}
include small

theorem denotes_iff : Denotes radix digits number ↔
    digits.all (isDigit radix) = true ∧ value radix digits = number := by
  induction digits using List.reverseRecOn generalizing number with
  | nil => simp [denotes_nil, value, eq_comm]
  | append_singleton digits c induction =>
    rw [denotes_append, value_append, List.all_append, Bool.and_eq_true]
    simp only [induction, ← digit_value?_eq_some_iff small]
    constructor
    · rintro ⟨_, digit, ⟨all, rfl⟩, here, rfl⟩
      simp [all, here, isDigit]
    · rintro ⟨⟨all, here⟩, rfl⟩
      obtain ⟨digit, found⟩ : ∃ digit, digitValue? radix c = some digit := by
        simpa [isDigit, Option.isSome_iff_exists] using here
      exact ⟨_, digit, ⟨all, rfl⟩, found, by rw [found]; rfl⟩

theorem read_digits_append {limit start : Nat} {c : Char} :
    readDigits radix limit start (digits ++ [c]) = .ok number ↔
      ∃ earlier digit, readDigits radix limit start digits = .ok earlier ∧
        IsFigure radix c digit ∧ earlier * radix + digit = number ∧ number ≤ limit := by
  induction digits generalizing start with
  | nil =>
    simp only [List.nil_append, readDigits, ← digit_value?_eq_some_iff small]
    cases digitValue? radix c with
    | none => simp
    | some digit => grind
  | cons first digits induction =>
    simp only [List.cons_append, readDigits]
    cases digitValue? radix first with
    | none => simp
    | some digit =>
      dsimp only
      split_ifs
      · exact induction
      · simp

/-- Stopping early refuses nothing else: the number only grows from digit to digit. -/
theorem read_digits_eq_ok (positive : 0 < radix) {limit : Nat} :
    readDigits radix limit 0 digits = .ok number ↔
      Denotes radix digits number ∧ number ≤ limit := by
  induction digits using List.reverseRecOn generalizing number with
  | nil => simp [readDigits, denotes_nil, eq_comm] ; grind
  | append_singleton digits c induction =>
    rw [read_digits_append small, denotes_append]
    simp only [induction]
    constructor
    · rintro ⟨earlier, digit, ⟨denotes, -⟩, here, rfl, limited⟩
      exact ⟨⟨earlier, digit, denotes, here, rfl⟩, limited⟩
    · rintro ⟨⟨earlier, digit, denotes, here, rfl⟩, limited⟩
      have grows : earlier ≤ earlier * radix := Nat.le_mul_of_pos_right earlier positive
      exact ⟨earlier, digit, ⟨denotes, by omega⟩, here, rfl, limited⟩

end

theorem radix_bounds (text : List Char) :
    0 < (radixAndDigits text).1 ∧ (radixAndDigits text).1 ≤ 16 := by
  unfold radixAndDigits
  split <;> simp

theorem writes_iff {text : List Char} {number : Nat} :
    Writes text number ↔ (radixAndDigits text).2 ≠ [] ∧
      Denotes (radixAndDigits text).1 (radixAndDigits text).2 number := by
  constructor
  · intro writes
    cases writes with
    | decimal some denotes =>
      have all := List.all_eq_true.mp ((denotes_iff (by decide)).mp denotes).1
      rw [radix_and_digits_of_decimal all]
      exact ⟨some, denotes⟩
    | hexadecimal marked some denotes => rcases marked with rfl | rfl <;> exact ⟨some, denotes⟩
    | binary marked some denotes => rcases marked with rfl | rfl <;> exact ⟨some, denotes⟩
  · fun_cases radixAndDigits text <;> rintro ⟨some, denotes⟩
    · exact .hexadecimal (.inl rfl) some denotes
    · exact .hexadecimal (.inr rfl) some denotes
    · exact .binary (.inl rfl) some denotes
    · exact .binary (.inr rfl) some denotes
    · exact .decimal some denotes

theorem mem_of_mem_radix_and_digits {text : List Char} {c : Char}
    (member : c ∈ (radixAndDigits text).2) : c ∈ text := by
  revert member
  fun_cases radixAndDigits text <;> simp +contextual

theorem read_eq_ok {radix limit number : Nat} {digits : List Char} (unsigned : '+' ∉ digits) :
    read radix limit digits = .ok number ↔
      digits ≠ [] ∧ readDigits radix limit 0 digits = .ok number := by
  fun_cases read radix limit digits with
  | case1 => simp
  | case2 => exact absurd List.mem_cons_self unsigned
  | case3 => exact absurd List.mem_cons_self unsigned
  | case4 => simp_all

end Numeral

theorem Address.read_eq_ok {text : List Char} {value : Nat} (unsigned : '+' ∉ text) :
    Address.read text = .ok value ↔ Numeral.Writes text value ∧ value ≤ 65535 := by
  obtain ⟨positive, small⟩ := Numeral.radix_bounds text
  have plain : '+' ∉ (Numeral.radixAndDigits text).2 :=
    fun member => unsigned (Numeral.mem_of_mem_radix_and_digits member)
  rw [Address.read, Numeral.read_eq_ok plain, Numeral.read_digits_eq_ok small positive,
    Numeral.writes_iff, and_assoc]
  rfl

/-! ### The lexeme of a number -/

namespace Lexeme

section
variable {text : List Char} {number : Nat} (short : text.length ≤ scanCapacity)
include short

theorem number_of_writes (writes : Numeral.Writes text number) :
    Lexeme.number text = if number ≤ integerLimit then ofToken text (.integer number)
      else ⟨text, .fault (.literalOutOfRange (String.ofList text))⟩ := by
  obtain ⟨some, denotes⟩ := Numeral.writes_iff.mp writes
  obtain ⟨all, rfl⟩ := (Numeral.denotes_iff (Numeral.radix_bounds text).2).mp denotes
  rw [Lexeme.number, if_neg (Nat.not_lt.mpr short), numberOf, if_neg (by simp [some, all])]

theorem number_of_not_writes (nothing : ∀ number, ¬ Numeral.Writes text number) :
    Lexeme.number text = malformed text := by
  rw [Lexeme.number, if_neg (Nat.not_lt.mpr short), numberOf, if_pos]
  by_contra digits
  rw [not_or, not_not] at digits
  have denotes := (Numeral.denotes_iff (Numeral.radix_bounds text).2).mpr ⟨digits.2, rfl⟩
  exact nothing _ (Numeral.writes_iff.mpr ⟨digits.1, denotes⟩)

end

end Lexeme

/-! ### Both readers -/

def Token.alone (text : List Char) (kind : Token.Kind) : List Token :=
  [⟨kind, .start⟩, ⟨.newLine, ⟨0, text.length⟩⟩]

def IsRefused (text : List Char) (cause : Cause) : Prop :=
  tokenize text = Token.alone text (.bad (String.ofList text)) ∧
    lexicalFaults text = [⟨.start, cause, some (.bad (String.ofList text))⟩]

def IsInteger (text : List Char) (value : Int) : Prop :=
  tokenize text = Token.alone text (.integer value) ∧ lexicalFaults text = []

/-- What the two readers say about a text, in terms of the number that it writes. -/
structure NumberReadings (text : List Char) : Prop where
  address (value : Nat) : Address.read text = .ok value ↔ IsInteger text value ∧ value ≤ 65535
  integer (value : Int) : (∃ token ∈ tokenize text, token.kind = .integer value) ↔
    ∃ number : Nat, Numeral.Writes text number ∧ number ≤ 2147483647 ∧ value = number
  inRange (number : Nat) : Numeral.Writes text number → number ≤ 2147483647 →
    IsInteger text number
  outOfRange (number : Nat) : Numeral.Writes text number → 2147483647 < number →
    IsRefused text (.literalOutOfRange (String.ofList text))
  malformed : (∀ number, ¬ Numeral.Writes text number) →
    IsRefused text (.malformedLiteral (String.ofList text))

/-- Letters, digits and low lines behind a first digit, as many as a number token can have. -/
structure IsNumeral (text : List Char) : Prop where
  starts : ∃ c ∈ text.head?, c.isDigit = true
  inside : ∀ c ∈ text, c.isAlphanum = true ∨ c = '_'
  short : text.length ≤ 64

namespace IsNumeral
variable {text : List Char} (numeral : IsNumeral text)
include numeral

theorem is_numeral_char {c : Char} (member : c ∈ text) : isNumeralChar c = true := by
  rcases numeral.inside c member with letter | rfl
  · simp [Z80Toolchain.isNumeralChar, letter]
  · decide

theorem not_mem {c : Char} (other : Z80Toolchain.isNumeralChar c = false) : c ∉ text := by
  intro member
  rw [numeral.is_numeral_char member] at other
  cases other

theorem lexemes_normalize : lexemes (Text.normalize text) = [Lexeme.number text] := by
  have clean : ∀ c ∈ text, c ≠ '\r' := by
    rintro _ member rfl
    exact numeral.not_mem (by decide) member
  obtain ⟨c, first, digit⟩ := numeral.starts
  obtain ⟨rest, rfl⟩ := List.head?_eq_some_iff.mp first
  have whole : Lexeme.first c (rest ++ []) = Lexeme.number (c :: rest) := by
    rw [List.append_nil, Lexeme.first_of_is_digit digit, List.takeWhile_eq_self_iff.mpr]
    exact fun d member => numeral.is_numeral_char (List.mem_cons_of_mem c member)
  have cut := lexemes_append whole (Lexeme.text_number _)
  rw [List.append_nil, lexemes_nil] at cut
  rw [Text.normalize_of_no_return clean, cut]

theorem advance_start : Position.start.advance text = ⟨0, text.length⟩ := by
  simp [Position.advance_flat (numeral.not_mem (by decide)), Position.start]

theorem is_integer {value : Int}
    (found : Lexeme.number text = Lexeme.ofToken text (.integer value)) : IsInteger text value := by
  rw [IsInteger, tokenize, lexicalFaults, numeral.lexemes_normalize, found]
  simp [Lexeme.tokensFrom, Lexeme.faultsFrom, Lexeme.ofToken, numeral.advance_start, Token.alone]

theorem is_refused {cause : Cause} (found : Lexeme.number text = ⟨text, .fault cause⟩) :
    IsRefused text cause := by
  rw [IsRefused, tokenize, lexicalFaults, numeral.lexemes_normalize, found]
  simp [Lexeme.tokensFrom, Lexeme.faultsFrom, numeral.advance_start, Token.alone]

theorem is_integer_of_writes {number : Nat} (writes : Numeral.Writes text number)
    (limited : number ≤ integerLimit) : IsInteger text number :=
  numeral.is_integer ((Lexeme.number_of_writes numeral.short writes).trans (if_pos limited))

theorem is_refused_of_writes {number : Nat} (writes : Numeral.Writes text number)
    (large : integerLimit < number) : IsRefused text (.literalOutOfRange (String.ofList text)) := by
  have beyond : ¬ number ≤ integerLimit := Nat.not_le.mpr large
  exact numeral.is_refused ((Lexeme.number_of_writes numeral.short writes).trans (if_neg beyond))

theorem is_refused_of_not_writes (nothing : ∀ number, ¬ Numeral.Writes text number) :
    IsRefused text (.malformedLiteral (String.ofList text)) :=
  numeral.is_refused (Lexeme.number_of_not_writes numeral.short nothing)

/-- Every text writes a number in range, one that is too large, or none, so the tokens tell which. -/
theorem mem_tokenize_iff {value : Int} :
    (∃ token ∈ tokenize text, token.kind = .integer value) ↔
      ∃ number : Nat, Numeral.Writes text number ∧ number ≤ integerLimit ∧ value = number := by
  constructor
  · intro found
    by_cases written : ∃ number, Numeral.Writes text number
    · obtain ⟨number, writes⟩ := written
      by_cases limited : number ≤ integerLimit
      · rw [(numeral.is_integer_of_writes writes limited).1] at found
        exact ⟨number, writes, limited, by simpa [Token.alone, eq_comm] using found⟩
      · rw [(numeral.is_refused_of_writes writes (Nat.not_le.mp limited)).1] at found
        simp [Token.alone] at found
    · rw [(numeral.is_refused_of_not_writes (not_exists.mp written)).1] at found
      simp [Token.alone] at found
  · rintro ⟨number, writes, limited, rfl⟩
    rw [(numeral.is_integer_of_writes writes limited).1]
    exact ⟨_, List.mem_cons_self, rfl⟩

end IsNumeral

theorem number_readings_of_is_numeral {text : List Char} (numeral : IsNumeral text) :
    NumberReadings text where
  address value := by
    rw [Address.read_eq_ok (numeral.not_mem (by decide))]
    apply and_congr_left
    intro small
    constructor
    · intro writes
      exact numeral.is_integer_of_writes writes (Nat.le_trans small (by decide))
    · intro integer
      have first : ∃ token ∈ tokenize text, token.kind = .integer value := by
        rw [integer.1]
        exact ⟨_, List.mem_cons_self, rfl⟩
      obtain ⟨number, writes, -, same⟩ := numeral.mem_tokenize_iff.mp first
      rwa [Int.ofNat_inj.mp same]
  integer value := numeral.mem_tokenize_iff
  inRange number := numeral.is_integer_of_writes
  outOfRange number := numeral.is_refused_of_writes
  malformed := numeral.is_refused_of_not_writes

/-- A mark of base two behind a mark of base sixteen is a digit. -/
theorem number_readings_marks :
    IsNumeral "0x0b1".toList ∧ Address.read "0x0b1".toList = .ok 177 ∧
      IsInteger "0x0b1".toList 177 := by
  have numeral : IsNumeral "0x0b1".toList :=
    ⟨⟨'0', rfl, rfl⟩, by simp, by simp⟩
  have read : Address.read "0x0b1".toList = .ok 177 := by rfl
  exact ⟨numeral, read, (((number_readings_of_is_numeral numeral).address 177).mp read).1⟩

end Z80Toolchain
