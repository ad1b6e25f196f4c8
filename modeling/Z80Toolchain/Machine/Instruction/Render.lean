import Z80Toolchain.Machine.Instruction
import Z80Toolchain.Text.Numeral

/-!
Instructions as text, in the syntax that the assembler reads. There is one text for each
instruction: small letters, bytes and words in padded hexadecimal, distances in decimal.
-/
namespace Z80Toolchain

def signedByte (byte : UInt8) : Int :=
  if byte.toNat < 128 then byte.toNat else (byte.toNat : Int) - 256

def byteText (byte : UInt8) : String := "0x" ++ Numeral.hex 2 byte.toNat

def wordText (word : UInt16) : String := "0x" ++ Numeral.hex 4 word.toNat

/-- A relative jump names its target by the distance from the start of the instruction. -/
def distanceText (distance : UInt8) : String := Numeral.signed (signedByte distance + 2)

def Base.text : Base → String
  | .hl => "hl"
  | .index register => register.name

def Memory.text : Memory → String
  | .hl => slotName memorySlot
  | .indexed register distance =>
    let number := signedByte distance
    if number < 0 then "(" ++ register.name ++ "-" ++ Numeral.decimal number.natAbs ++ ")"
    else "(" ++ register.name ++ "+" ++ Numeral.decimal number.natAbs ++ ")"

def Cell.text : Cell → String
  | .reg register => register.name
  | .memory address => address.text

def Place.text : Place → String
  | .cell content => content.text
  | .half register part => register.halfName part

def Wide.text : Wide → String
  | .bc => "bc"
  | .de => "de"
  | .sp => "sp"
  | .base register => register.text

def StackWide.text : StackWide → String
  | .bc => "bc"
  | .de => "de"
  | .af => "af"
  | .base register => register.text

def Addend.text (target : Base) : Addend → String
  | .bc => "bc"
  | .de => "de"
  | .sp => "sp"
  | .itself => target.text

def Pointer.text : Pointer → String
  | .bc => "(bc)"
  | .de => "(de)"
  | .address target => "(" ++ wordText target ++ ")"

def Control.name : Control → String
  | .i => "i"
  | .r => "r"

def Opcode.InterruptMode.digit : Opcode.InterruptMode → String
  | .zero => "0"
  | .one => "1"
  | .two => "2"

namespace Instruction

/-- The accumulator is named only where a sixteen-bit form of the operation exists as well. -/
def arithText (operation : Arith) (source : String) : String :=
  if operation.namesAccumulator then operation.name ++ " a, " ++ source
  else operation.name ++ " " ++ source

def text : Instruction → String
  | implied operation => operation.name
  | load target source => "ld " ++ target.text ++ ", " ++ source.text
  | loadByte target value => "ld " ++ target.text ++ ", " ++ byteText value
  | loadAccumulator source => "ld a, " ++ source.text
  | storeAccumulator target => "ld " ++ target.text ++ ", a"
  | readControl source => "ld a, " ++ source.name
  | writeControl target => "ld " ++ target.name ++ ", a"
  | loadWord target value => "ld " ++ target.text ++ ", " ++ wordText value
  | loadWordAt target address => "ld " ++ target.text ++ ", (" ++ wordText address ++ ")"
  | storeWordAt address source => "ld (" ++ wordText address ++ "), " ++ source.text
  | loadStackPointer source => "ld sp, " ++ source.text
  | push source => "push " ++ source.text
  | pop target => "pop " ++ target.text
  | exchangeAf => "ex af, af'"
  | exchangeDeHl => "ex de, hl"
  | exchangeStack register => "ex (sp), " ++ register.text
  | arith operation source => arithText operation source.text
  | arithByte operation value => arithText operation (byteText value)
  | addWord target source => "add " ++ target.text ++ ", " ++ source.text target
  | addWithCarry source => "adc hl, " ++ source.text .hl
  | subtractWithCarry source => "sbc hl, " ++ source.text .hl
  | increment target => "inc " ++ target.text
  | decrement target => "dec " ++ target.text
  | incrementWord target => "inc " ++ target.text
  | decrementWord target => "dec " ++ target.text
  | shift operation target => operation.name ++ " " ++ target.text
  | bit operation number target =>
    operation.name ++ " " ++ Numeral.decimal number ++ ", " ++ target.text
  | jump address => "jp " ++ wordText address
  | jumpIf cond address => "jp " ++ cond.name ++ ", " ++ wordText address
  | jumpTo register => "jp (" ++ register.text ++ ")"
  | jumpRelative distance => "jr " ++ distanceText distance
  | jumpRelativeIf cond distance => "jr " ++ cond.name ++ ", " ++ distanceText distance
  | countDown distance => "djnz " ++ distanceText distance
  | call address => "call " ++ wordText address
  | callIf cond address => "call " ++ cond.name ++ ", " ++ wordText address
  | ret => "ret"
  | retIf cond => "ret " ++ cond.name
  | restart vector => "rst 0x" ++ Numeral.hex 2 (8 * vector)
  | interruptMode mode => "im " ++ mode.digit
  | inputPort number => "in a, (" ++ byteText number ++ ")"
  | outputPort number => "out (" ++ byteText number ++ "), a"
  | input none => "in (c)"
  | input (some target) => "in " ++ target.name ++ ", (c)"
  | output none => "out (c), 0"
  | output (some source) => "out (c), " ++ source.name

end Instruction

end Z80Toolchain
