import Z80Toolchain.Assembly.Selection
import Z80Toolchain.Machine.Instruction.Render

/-!
The canonical rendering of an instruction as it was parsed: a mnemonic and its operands, written in
one way only. It is defined on the operands alone, without bytes and without the instruction that is
selected for them; the lemmas say that every selected instruction has exactly this text. Nothing is
said here about operands that a mnemonic refuses.
-/
namespace Z80Toolchain

/-! ### Rules of the rendering -/

inductive NumberStyle
  | byte
  | word
  | decimal
deriving DecidableEq, Repr

/-- A label has no number yet: its place holds a zero, which as a jump distance leads to the next
instruction, two bytes on. -/
def NumberStyle.text : NumberStyle → Expression → String
  | byte, .value number => "0x" ++ Numeral.hex 2 (number % 256).toNat
  | byte, .symbol _ _ => "0x00"
  | word, .value number => "0x" ++ Numeral.hex 4 (number % 65536).toNat
  | word, .symbol _ _ => "0x0000"
  | decimal, .value number => Numeral.signed number
  | decimal, .symbol _ _ => "2"

namespace Operand

def text (style : NumberStyle) : Operand → String
  | reg register => register.name
  | half register part => register.halfName part
  | pair registers => registers.name
  | shadowAf => "af'"
  | index register => register.name
  | control register => register.name
  | cond condition => condition.name
  | atHl => "(hl)"
  | atBc => "(bc)"
  | atDe => "(de)"
  | atSp => "(sp)"
  | atC => "(c)"
  | atIndex register => "(" ++ register.name ++ ")"
  | indexed register distance =>
    "(" ++ register.name ++ (if distance < 0 then "-" else "+") ++
      Numeral.decimal distance.natAbs ++ ")"
  | memory address => "(" ++ style.text address ++ ")"
  | immediate value => style.text value

/-- An index register in parentheses names the cell at distance zero. -/
def explicit : Operand → Operand
  | atIndex register => indexed register 0
  | operand => operand

/-- Operands beside which a load moves two bytes or names an address. -/
def isWide : Operand → Bool
  | pair _ | index _ | memory _ => true
  | _ => false

end Operand

def Arith.canonicalOperands (operation : Arith) : List Operand → List Operand
  | [.reg .a, source] | [source] =>
    if operation.namesAccumulator then [.reg .a, source] else [source]
  | operands => operands

theorem Arith.canonical_operands_other (operation : Arith) {first : Operand} (second : Operand)
    (other : first ≠ .reg .a) : operation.canonicalOperands [first, second] = [first, second] := by
  unfold Arith.canonicalOperands
  split <;> simp_all

namespace Mnemonic

def canonicalOperands : Mnemonic → List Operand → List Operand
  | jp, operands => operands
  | arith operation, operands => (operation.canonicalOperands operands).map Operand.explicit
  | _, operands => operands.map Operand.explicit

def numberStyle : Mnemonic → List Operand → NumberStyle
  | ld, operands => if operands.any Operand.isWide then .word else .byte
  | jp, _ | call, _ => .word
  | jr, _ | djnz, _ | bit _, _ | im, _ => .decimal
  | output, .atC :: _ => .decimal
  | _, _ => .byte

end Mnemonic

def lineText (name : String) : List String → String
  | [] => name
  | texts => name ++ " " ++ String.intercalate ", " texts

def canonicalText (mnemonic : Mnemonic) (operands : List Operand) : String :=
  lineText mnemonic.name
    ((mnemonic.canonicalOperands operands).map (Operand.text (mnemonic.numberStyle operands)))

@[simp] theorem line_text_nil (name : String) : lineText name [] = name := rfl

@[simp] theorem line_text_one (name text : String) : lineText name [text] = name ++ " " ++ text := by
  simp [lineText]

@[simp] theorem line_text_two (name first second : String) :
    lineText name [first, second] = name ++ " " ++ first ++ ", " ++ second := by
  simp [lineText, String.intercalate_cons_cons, String.append_assoc]

/-! ### Numbers as text -/

theorem to_nat_byte_of_int (number : Int) : (UInt8.ofInt number).toNat = (number % 256).toNat := by
  rw [UInt8.ofInt, UInt8.toNat_ofNat']
  omega

theorem to_nat_word_of_int (number : Int) : (UInt16.ofInt number).toNat = (number % 65536).toNat := by
  rw [UInt16.ofInt, UInt16.toNat_ofNat']
  omega

theorem signed_byte_of_int {number : Int} (low : -128 ≤ number) (high : number ≤ 127) :
    signedByte (UInt8.ofInt number) = number := by
  unfold signedByte
  rw [to_nat_byte_of_int]
  split <;> omega

/-- Every byte is read from the number it denotes. -/
theorem byte_text_of_int (number : Int) :
    byteText (UInt8.ofInt number) = NumberStyle.byte.text (.value number) := by
  rw [byteText, to_nat_byte_of_int, NumberStyle.text]

theorem word_text_of_int (number : Int) :
    wordText (UInt16.ofInt number) = NumberStyle.word.text (.value number) := by
  rw [wordText, to_nat_word_of_int, NumberStyle.text]

theorem word_text_zero (name : String) (addend : Int) :
    wordText 0 = NumberStyle.word.text (.symbol name addend) := by
  rw [NumberStyle.text]
  decide

theorem distance_text_zero (name : String) (addend : Int) :
    distanceText 0 = NumberStyle.decimal.text (.symbol name addend) := by
  rw [NumberStyle.text]
  decide

theorem text_indexed (register : Index) {distance : Int} (low : -128 ≤ distance)
    (high : distance ≤ 127) (style : NumberStyle) :
    (Memory.indexed register (UInt8.ofInt distance)).text =
      (Operand.indexed register distance).text style := by
  simp only [Memory.text, signed_byte_of_int low high, Operand.text]
  split <;> rfl

end Z80Toolchain
