import Z80Toolchain.Machine.Disassembly
import Z80Toolchain.Proofs.Assembly.Canonical
import Z80Toolchain.Proofs.Assembly.OperandReading
import Z80Toolchain.Proofs.Source.Spelling

/-!
Listed lines spell the tokens of their operands. The text of an operand in a number style gives back
the tokens of the operand, provided that the style shows the whole number; a line is a word and the
texts of its operands with commas between them. Such a line has none of the characters that end a
line or open a directive.
-/
namespace Z80Toolchain

/-! ### Characters of a listing -/

/-- The text neither ends its line nor could open a directive. -/
def Clean (text : List Char) : Prop :=
  ∀ c ∈ text, c ≠ '\n' ∧ c ≠ '\r' ∧ c ≠ '%'

instance (text : List Char) : Decidable (Clean text) :=
  List.decidableBAll _ text

theorem Clean.append {left right : List Char} (first : Clean left) (second : Clean right) :
    Clean (left ++ right) := by
  intro c member
  rcases List.mem_append.mp member with inLeft | inRight
  · exact first c inLeft
  · exact second c inRight

theorem Clean.cons {c : Char} {text : List Char} (first : c ≠ '\n' ∧ c ≠ '\r' ∧ c ≠ '%')
    (rest : Clean text) : Clean (c :: text) := by
  intro d member
  rcases List.mem_cons.mp member with rfl | inside
  · exact first
  · exact rest d inside

theorem clean_of_is_alphanum {text : List Char} (inside : ∀ c ∈ text, c.isAlphanum = true) :
    Clean text := by
  intro c member
  have letter := inside c member
  refine ⟨?_, ?_, ?_⟩ <;> rintro rfl <;> exact absurd letter (by decide)

theorem clean_hex (width value : Nat) : Clean ("0x" ++ Numeral.hex width value).toList := by
  have digits := Numeral.is_digit_leftpad (by decide) width
    (@Numeral.is_digit_to_digits 16 (by decide) (by decide) value)
  simp only [String.toList_append, Numeral.hex, String.toList_ofList]
  refine Clean.append (by decide) (clean_of_is_alphanum fun c member => ?_)
  exact Numeral.is_alphanum_of_is_digit (digits c member)

theorem clean_decimal (value : Nat) : Clean (Numeral.decimal value).toList := by
  rw [Numeral.decimal, String.toList_ofList]
  exact clean_of_is_alphanum fun c member =>
    Numeral.is_alphanum_of_is_digit (@Numeral.is_digit_to_digits 10 (by decide) (by decide) value c member)

/-! ### Spelled text of a listing -/

structure Listed (text : List Char) (kinds : List Token.Kind) : Prop where
  spells : Spells text kinds
  clean : Clean text

def IsListedName (name : String) : Prop :=
  isWord name.toList = true ∧ Clean name.toList

instance (name : String) : Decidable (IsListedName name) :=
  inferInstanceAs (Decidable (_ ∧ _))

namespace Listed

theorem name {name : String} (word : IsListedName name) : Listed name.toList [.text name] := by
  have spelled := Spells.word word.1
  rw [String.ofList_toList] at spelled
  exact ⟨spelled, word.2⟩

theorem append {left right : List Char} {first second : List Token.Kind}
    (listed : Listed left first) (others : Listed right second)
    (apart : ∀ rest, Delimited rest → Delimited (right ++ rest)) :
    Listed (left ++ right) (first ++ second) :=
  ⟨listed.spells.append others.spells apart, listed.clean.append others.clean⟩

theorem mark {c : Char} {kind : Token.Kind} {text : List Char} {kinds : List Token.Kind}
    (alone : ∀ rest, Lexeme.first c rest = Lexeme.ofToken [c] kind)
    (clean : c ≠ '\n' ∧ c ≠ '\r' ∧ c ≠ '%') (listed : Listed text kinds) :
    Listed (c :: text) (kind :: kinds) :=
  ⟨Spells.mark alone listed.spells, Clean.cons clean listed.clean⟩

theorem nil : Listed [] [] :=
  ⟨Spells.nil, by simp [Clean]⟩

theorem blank {text : List Char} {kinds : List Token.Kind} (listed : Listed text kinds) :
    Listed (' ' :: text) kinds :=
  ⟨Spells.blank listed.spells, Clean.cons (by decide) listed.clean⟩

theorem minus {text : List Char} {kinds : List Token.Kind} (listed : Listed text kinds) :
    Listed ('-' :: text) (.minus :: kinds) :=
  mark (fun _ => rfl) (by decide) listed

theorem plus {text : List Char} {kinds : List Token.Kind} (listed : Listed text kinds) :
    Listed ('+' :: text) (.plus :: kinds) :=
  mark (fun _ => rfl) (by decide) listed

theorem comma {text : List Char} {kinds : List Token.Kind} (listed : Listed text kinds) :
    Listed (',' :: text) (.comma :: kinds) :=
  mark (fun _ => rfl) (by decide) listed

theorem closing : Listed [')'] [.rightParen] :=
  mark (fun _ => rfl) (by decide) nil

theorem delimited_closing (rest : List Char) : Delimited ([')'] ++ rest) :=
  delimited_cons rest (by decide) (by decide)

/-- Text in parentheses. -/
theorem parens {text : List Char} {kinds : List Token.Kind} (listed : Listed text kinds) :
    Listed ('(' :: (text ++ [')'])) (.leftParen :: (kinds ++ [.rightParen])) :=
  mark (fun _ => rfl) (by decide) (listed.append closing fun rest _ => delimited_closing rest)

theorem decimal {value : Nat} (limited : value ≤ integerLimit) :
    Listed (Numeral.decimal value).toList [.integer value] :=
  ⟨Spells.decimal limited, clean_decimal value⟩

end Listed

/-! ### Operands -/

def NumberStyle.Shows : NumberStyle → Int → Prop
  | byte, number => 0 ≤ number ∧ number < 256
  | word, number => 0 ≤ number ∧ number < 65536
  | decimal, number => number.natAbs ≤ integerLimit

theorem NumberStyle.Shows.fits {style : NumberStyle} {number : Int} (shown : style.Shows number) :
    fitsInteger number = true := by
  simp only [fitsInteger, Bool.and_eq_true, decide_eq_true_eq]
  cases style <;> simp only [NumberStyle.Shows, integerLimit] at shown <;> omega

theorem NumberStyle.listed_text {style : NumberStyle} {number : Int} (shown : style.Shows number) :
    Listed (style.text (.value number)).toList (Expression.literalKinds number) := by
  cases style with
  | byte =>
    obtain ⟨low, high⟩ := shown
    have value : ((number % 256).toNat : Int) = number := by omega
    have spelled := @Spells.hex 2 (number % 256).toNat (by decide) (by decide)
      (show (number % 256).toNat < 256 by omega)
      (by simp only [integerLimit]; omega)
    rw [value] at spelled
    rw [Expression.literalKinds, if_neg (by omega)]
    exact ⟨spelled, clean_hex 2 _⟩
  | word =>
    obtain ⟨low, high⟩ := shown
    have value : ((number % 65536).toNat : Int) = number := by omega
    have spelled := @Spells.hex 4 (number % 65536).toNat (by decide) (by decide)
      (show (number % 65536).toNat < 65536 by omega)
      (by simp only [integerLimit]; omega)
    rw [value] at spelled
    rw [Expression.literalKinds, if_neg (by omega)]
    exact ⟨spelled, clean_hex 4 _⟩
  | decimal =>
    cases number with
    | ofNat value =>
      rw [Expression.literalKinds, if_neg (by simp)]
      exact Listed.decimal shown
    | negSucc value =>
      have written : (NumberStyle.decimal.text (.value (.negSucc value))).toList =
          '-' :: (Numeral.decimal (value + 1)).toList := by
        simp [NumberStyle.text, Numeral.signed]
      rw [Expression.literalKinds, if_pos (by omega), written]
      exact Listed.minus (Listed.decimal shown)

namespace Operand

/-- An operand that its text in this style stands for. -/
def Shown (style : NumberStyle) : Operand → Prop
  | cond condition => condition ≠ .c
  | indexed _ distance => distance.natAbs ≤ 128
  | memory (.value number) => style.Shows number
  | immediate (.value number) => style.Shows number
  | memory (.symbol _ _) => False
  | immediate (.symbol _ _) => False
  | _ => True

theorem Shown.is_literal {style : NumberStyle} {operand : Operand} (shown : operand.Shown style) :
    operand.IsLiteral := by
  cases operand with
  | indexed register distance =>
    simp only [Shown] at shown
    simp only [IsLiteral, fitsInteger, Bool.and_eq_true, decide_eq_true_eq]
    omega
  | memory address | immediate address =>
    cases address with
    | value number => exact shown.fits
    | symbol name addend => exact shown
  | cond condition => exact shown
  | _ => trivial

theorem listed_register (register : Index) : Listed register.name.toList [.text register.name] :=
  Listed.name (by cases register <;> decide)

theorem listed_indexed (register : Index) {distance : Int} (short : distance.natAbs ≤ 128)
    (style : NumberStyle) :
    Listed ((indexed register distance).text style).toList (indexed register distance).kinds := by
  have limited : distance.natAbs ≤ integerLimit := by
    simp only [integerLimit]
    omega
  have number := Listed.decimal limited
  by_cases negative : distance < 0
  · have value : (distance.natAbs : Int) = -distance := by omega
    have signed := (listed_register register).append number.minus fun rest _ =>
      delimited_cons _ (by decide) (by decide)
    have written : ((indexed register distance).text style).toList = '(' ::
        (register.name.toList ++ '-' :: (Numeral.decimal distance.natAbs).toList ++ [')']) := by
      simp [text, negative]
    rw [written, kinds, if_pos negative, ← value]
    exact signed.parens
  · have value : (distance.natAbs : Int) = distance := by omega
    have signed := (listed_register register).append number.plus fun rest _ =>
      delimited_cons _ (by decide) (by decide)
    have written : ((indexed register distance).text style).toList = '(' ::
        (register.name.toList ++ '+' :: (Numeral.decimal distance.natAbs).toList ++ [')']) := by
      simp [text, negative]
    rw [written, kinds, if_neg negative]
    rw [value] at signed
    exact signed.parens

/-- The text of an operand stands for its tokens. -/
theorem listed_text {style : NumberStyle} {operand : Operand} (shown : operand.Shown style) :
    Listed (operand.text style).toList operand.kinds := by
  have pointer : ∀ name, IsListedName name → operand.text style = "(" ++ name ++ ")" →
      operand.kinds = [.leftParen, .text name, .rightParen] →
      Listed (operand.text style).toList operand.kinds := by
    intro name word written same
    have letters : ("(" ++ name ++ ")").toList = '(' :: (name.toList ++ [')']) := by simp
    rw [written, letters, same]
    exact (Listed.name word).parens
  cases operand with
  | reg register => exact @Listed.name register.name (by cases register <;> decide)
  | half register part =>
    exact @Listed.name (register.halfName part) (by cases register <;> cases part <;> decide)
  | pair registers => exact @Listed.name registers.name (by cases registers <;> decide)
  | shadowAf => exact @Listed.name "af'" (by decide)
  | index register => exact listed_register register
  | control register => exact @Listed.name register.name (by cases register <;> decide)
  | cond condition => exact @Listed.name condition.name (by cases condition <;> decide)
  | atHl => exact pointer "hl" (by decide) rfl rfl
  | atBc => exact pointer "bc" (by decide) rfl rfl
  | atDe => exact pointer "de" (by decide) rfl rfl
  | atSp => exact pointer "sp" (by decide) rfl rfl
  | atC => exact pointer "c" (by decide) rfl rfl
  | atIndex register => exact pointer register.name (by cases register <;> decide) rfl rfl
  | indexed register distance => exact listed_indexed register shown style
  | memory address =>
    cases address with
    | value number =>
      have written : ((memory (.value number)).text style).toList =
          '(' :: ((style.text (.value number)).toList ++ [')']) := by
        simp [text]
      rw [written]
      exact (NumberStyle.listed_text shown).parens
    | symbol name addend => exact absurd shown id
  | immediate value =>
    cases value with
    | value number => exact NumberStyle.listed_text shown
    | symbol name addend => exact absurd shown id

end Operand

/-! ### Lines -/

def lineKinds (name : String) (operands : List (List Token.Kind)) : List Token.Kind :=
  .text name :: List.intercalate [.comma] operands

inductive ListedAll : List String → List (List Token.Kind) → Prop
  | nil : ListedAll [] []
  | cons {text : String} {kinds : List Token.Kind} {texts : List String}
      {more : List (List Token.Kind)} : Listed text.toList kinds → ListedAll texts more →
        ListedAll (text :: texts) (kinds :: more)

theorem ListedAll.map {α : Type} {items : List α} {text : α → String} {kinds : α → List Token.Kind}
    (each : ∀ item ∈ items, Listed (text item).toList (kinds item)) :
    ListedAll (items.map text) (items.map kinds) := by
  induction items with
  | nil => exact .nil
  | cons item items induction =>
    exact .cons (each item (by simp)) (induction fun other member => each other (by simp [member]))

/-- Texts with commas between them. -/
theorem ListedAll.intercalate {texts : List String} {kinds : List (List Token.Kind)}
    (listed : ListedAll texts kinds) :
    Listed (String.intercalate ", " texts).toList (List.intercalate [.comma] kinds) := by
  induction listed with
  | nil => exact Listed.nil
  | @cons text kinds texts more first others induction =>
    cases others with
    | nil => simpa using first
    | @cons next nextKinds texts more second others =>
      have comma := induction.blank.comma
      have joined := first.append comma fun rest _ => delimited_cons _ (by decide) (by decide)
      have written : (String.intercalate ", " (text :: next :: texts)).toList =
          text.toList ++ ',' :: ' ' :: (String.intercalate ", " (next :: texts)).toList := by
        simp
      rw [written, List.intercalate_cons_cons]
      simpa using joined

theorem listed_line_text {name : String} (word : IsListedName name) {texts : List String}
    {kinds : List (List Token.Kind)} (listed : ListedAll texts kinds) :
    Listed (lineText name texts).toList (lineKinds name kinds) := by
  have named := Listed.name word
  cases listed with
  | nil => exact named
  | @cons text kinds texts more first others =>
    have rest := Listed.blank (ListedAll.cons first others).intercalate
    have written : (lineText name (text :: texts)).toList =
        name.toList ++ ' ' :: (String.intercalate ", " (text :: texts)).toList := by
      simp [lineText]
    rw [written]
    exact named.append rest fun more _ => delimited_cons _ (by decide) (by decide)

end Z80Toolchain
