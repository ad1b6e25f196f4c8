import Z80Toolchain.Assembly.Mnemonic
import Z80Toolchain.Assembly.Operand

/-!
From a mnemonic and its operands to an instruction. The shapes of the operands select the form, then
their values are checked from left to right. A label in a place for an address leaves a zero there
and the wish to have it patched.
-/
namespace Z80Toolchain

/-- How a label is written into code: as an address of two bytes, or as the distance to it in one. -/
inductive Width
  | absolute
  | relative
deriving DecidableEq, Repr

def Width.size : Width → Nat
  | absolute => 2
  | relative => 1

/-- A label in an operand, with what is added to its value. -/
structure Target where
  name : String
  addend : Int
  position : Position
deriving DecidableEq, Repr

/-- An instruction, and the label that its last operand waits for. -/
structure Selection where
  instruction : Instruction
  target : Option (Width × Target)
deriving DecidableEq, Repr

namespace Selection

def plain (instruction : Instruction) : Selection :=
  ⟨instruction, none⟩

/-! ### Checked operands -/

def invalid {α : Type} (mnemonic : Mnemonic) (argument : Argument) : Except Diagnostic α :=
  .error (argument.complain (.invalidOperand mnemonic.name))

/-- A byte, written as a signed or an unsigned number. -/
def byte (argument : Argument) : Expression → Except Diagnostic UInt8
  | .value number =>
    if -128 ≤ number ∧ number ≤ 255 then .ok (UInt8.ofInt number)
    else .error (argument.complain (.valueOutOfRange number))
  | .symbol _ _ => .error (argument.complain .unsupportedExpression)

def number (mnemonic : Mnemonic) (argument : Argument) : Except Diagnostic Int :=
  match argument.operand with
  | .immediate (.value number) => .ok number
  | _ => invalid mnemonic argument

def word (argument : Argument) (number : Int) : Except Diagnostic UInt16 :=
  if -32768 ≤ number ∧ number ≤ 65535 then .ok (UInt16.ofInt number)
  else .error (argument.complain (.valueOutOfRange number))

def withWord (argument : Argument) (expression : Expression) (build : UInt16 → Instruction) :
    Except Diagnostic Selection :=
  match expression with
  | .value number => do return plain (build (← word argument number))
  | .symbol name addend =>
    .ok ⟨build 0, some (.absolute, ⟨name, addend, argument.token.position⟩)⟩

/-- An instruction with a jump distance. A number counts from the start of the instruction, which
takes two bytes. -/
def withDistance (mnemonic : Mnemonic) (argument : Argument) (build : UInt8 → Instruction) :
    Except Diagnostic Selection :=
  match argument.operand with
  | .immediate (.value number) =>
    if -128 ≤ number - 2 ∧ number - 2 ≤ 127 then .ok (plain (build (UInt8.ofInt (number - 2))))
    else .error (argument.complain (.relativeOutOfRange number))
  | .immediate (.symbol name addend) =>
    .ok ⟨build 0, some (.relative, ⟨name, addend, argument.token.position⟩)⟩
  | _ => invalid mnemonic argument

def place (mnemonic : Mnemonic) (argument : Argument) : Except Diagnostic Place :=
  match argument.operand with
  | .reg register => .ok (.cell (.reg register))
  | .half register part => .ok (.half register part)
  | .atHl => .ok (.cell (.memory .hl))
  | .atIndex register => .ok (.cell (.memory (.indexed register 0)))
  | .indexed register distance =>
    if -128 ≤ distance ∧ distance ≤ 127 then
      .ok (.cell (.memory (.indexed register (UInt8.ofInt distance))))
    else .error (argument.complain (.displacementOutOfRange distance))
  | _ => invalid mnemonic argument

/-- An operand of the bit table, which has no halves of index registers. -/
def cell (mnemonic : Mnemonic) (argument : Argument) : Except Diagnostic Cell := do
  match ← place mnemonic argument with
  | .cell content => return content
  | .half _ _ => invalid mnemonic argument

def wide (mnemonic : Mnemonic) (argument : Argument) : Pair → Except Diagnostic Wide
  | .bc => .ok .bc
  | .de => .ok .de
  | .hl => .ok (.base .hl)
  | .sp => .ok .sp
  | .af => invalid mnemonic argument

/-- What sixteen-bit arithmetic adds to `hl`. -/
def addend (mnemonic : Mnemonic) (argument : Argument) : Pair → Except Diagnostic Addend
  | .bc => .ok .bc
  | .de => .ok .de
  | .hl => .ok .itself
  | .sp => .ok .sp
  | .af => invalid mnemonic argument

def condition (mnemonic : Mnemonic) (argument : Argument) : Except Diagnostic Cond :=
  match argument.cond? with
  | some cond => .ok cond
  | none => invalid mnemonic argument

/-! ### Loads and exchanges -/

def load (target source : Argument) : Except Diagnostic Selection :=
  match target.operand, source.operand with
  | .reg .a, .atBc => .ok (plain (.loadAccumulator .bc))
  | .reg .a, .atDe => .ok (plain (.loadAccumulator .de))
  | .reg .a, .memory address =>
    withWord source address fun address => .loadAccumulator (.address address)
  | .atBc, .reg .a => .ok (plain (.storeAccumulator .bc))
  | .atDe, .reg .a => .ok (plain (.storeAccumulator .de))
  | .memory address, .reg .a =>
    withWord target address fun address => .storeAccumulator (.address address)
  | .control register, .reg .a => .ok (plain (.writeControl register))
  | .reg .a, .control register => .ok (plain (.readControl register))
  | .pair .sp, .pair .hl => .ok (plain (.loadStackPointer .hl))
  | .pair .sp, .index register => .ok (plain (.loadStackPointer (.index register)))
  | .pair pair, .immediate value => do
    withWord source value (.loadWord (← wide .ld target pair))
  | .index register, .immediate value =>
    withWord source value (.loadWord (.base (.index register)))
  | .pair pair, .memory address => do
    withWord source address (.loadWordAt (← wide .ld target pair))
  | .index register, .memory address =>
    withWord source address (.loadWordAt (.base (.index register)))
  | .memory address, .pair pair => do
    let source ← wide .ld source pair
    withWord target address (.storeWordAt · source)
  | .memory address, .index register =>
    withWord target address (.storeWordAt · (.base (.index register)))
  | _, .immediate value => do
    let target ← place .ld target
    return plain (.loadByte target (← byte source value))
  | _, _ => do
    let into ← place .ld target
    let out ← place .ld source
    if into.compatible out then return plain (.load into out)
    else invalid .ld source

def exchange (first second : Argument) : Except Diagnostic Selection :=
  match first.operand, second.operand with
  | .pair .de, .pair .hl => .ok (plain .exchangeDeHl)
  | .pair .af, .shadowAf => .ok (plain .exchangeAf)
  | .atSp, .pair .hl => .ok (plain (.exchangeStack .hl))
  | .atSp, .index register => .ok (plain (.exchangeStack (.index register)))
  | .pair .de, _ | .pair .af, _ | .atSp, _ => invalid .ex second
  | _, _ => invalid .ex first

def stacked (mnemonic : Mnemonic) (argument : Argument) (build : StackWide → Instruction) :
    Except Diagnostic Selection :=
  match argument.operand with
  | .pair .bc => .ok (plain (build .bc))
  | .pair .de => .ok (plain (build .de))
  | .pair .hl => .ok (plain (build (.base .hl)))
  | .pair .af => .ok (plain (build .af))
  | .index register => .ok (plain (build (.base (.index register))))
  | _ => invalid mnemonic argument

/-! ### Arithmetic -/

def arith8 (operation : Arith) (source : Argument) : Except Diagnostic Selection :=
  match source.operand with
  | .immediate value => do return plain (.arithByte operation (← byte source value))
  | _ => do return plain (.arith operation (← place (.arith operation) source))

/-- What is added to an index register: itself, but not `hl`. -/
def indexAddend (register : Index) (source : Argument) : Except Diagnostic Addend :=
  match source.operand with
  | .index other => if other = register then .ok .itself else invalid (.arith .add) source
  | .pair .hl => invalid (.arith .add) source
  | .pair pair => addend (.arith .add) source pair
  | _ => invalid (.arith .add) source

def arith (operation : Arith) (first second : Argument) : Except Diagnostic Selection :=
  match operation, first.operand, second.operand with
  | _, .reg .a, _ => arith8 operation second
  | .add, .pair .hl, .pair pair => do
    return plain (.addWord .hl (← addend (.arith .add) second pair))
  | .add, .index register, _ => do
    return plain (.addWord (.index register) (← indexAddend register second))
  | .adc, .pair .hl, .pair pair => do
    return plain (.addWithCarry (← addend (.arith .adc) second pair))
  | .sbc, .pair .hl, .pair pair => do
    return plain (.subtractWithCarry (← addend (.arith .sbc) second pair))
  | _, _, _ => invalid (.arith operation) first

def counted (mnemonic : Mnemonic) (argument : Argument) (onWide : Wide → Instruction)
    (onPlace : Place → Instruction) : Except Diagnostic Selection :=
  match argument.operand with
  | .pair pair => do return plain (onWide (← wide mnemonic argument pair))
  | .index register => .ok (plain (onWide (.base (.index register))))
  | _ => do return plain (onPlace (← place mnemonic argument))

def shift (operation : Shift) (argument : Argument) : Except Diagnostic Selection := do
  return plain (.shift operation (← cell (.shift operation) argument))

def bit (operation : BitOp) (index argument : Argument) : Except Diagnostic Selection := do
  let number ← number (.bit operation) index
  if h : number.toNat < 8 ∧ 0 ≤ number then
    return plain (.bit operation ⟨number.toNat, h.1⟩ (← cell (.bit operation) argument))
  else invalid (.bit operation) index

/-! ### Jumps -/

def jump (argument : Argument) : Except Diagnostic Selection :=
  match argument.operand with
  | .atHl => .ok (plain (.jumpTo .hl))
  | .atIndex register => .ok (plain (.jumpTo (.index register)))
  | .immediate address => withWord argument address .jump
  | _ => invalid .jp argument

def call (argument : Argument) : Except Diagnostic Selection :=
  match argument.operand with
  | .immediate address => withWord argument address .call
  | _ => invalid .call argument

def conditional (mnemonic : Mnemonic) (first second : Argument)
    (build : Cond → UInt16 → Instruction) : Except Diagnostic Selection := do
  let cond ← condition mnemonic first
  match second.operand with
  | .immediate address => withWord second address (build cond)
  | _ => invalid mnemonic second

def relativeConditional (first second : Argument) : Except Diagnostic Selection :=
  match first.cond?.bind Cond.short? with
  | some cond => withDistance .jr second (.jumpRelativeIf cond)
  | none => invalid .jr first

def returnIf (argument : Argument) : Except Diagnostic Selection := do
  return plain (.retIf (← condition .ret argument))

def restart (argument : Argument) : Except Diagnostic Selection := do
  match Opcode.restartVector? (← number .rst argument) with
  | some vector => return plain (.restart vector)
  | none => invalid .rst argument

/-! ### Interrupts and ports -/

def interruptMode (argument : Argument) : Except Diagnostic Selection := do
  match Opcode.InterruptMode.ofNumber? (← number .im argument) with
  | some mode => return plain (.interruptMode mode)
  | none => invalid .im argument

/-- The form that only sets flags. -/
def inputAlone (argument : Argument) : Except Diagnostic Selection :=
  match argument.operand with
  | .atC => .ok (plain (.input none))
  | _ => invalid .input argument

def input (first second : Argument) : Except Diagnostic Selection :=
  match first.operand, second.operand with
  | .reg register, .atC => .ok (plain (.input (some register)))
  | .reg .a, .memory number => do return plain (.inputPort (← byte second number))
  | .reg _, _ => invalid .input second
  | _, _ => invalid .input first

def output (first second : Argument) : Except Diagnostic Selection :=
  match first.operand, second.operand with
  | .atC, .reg register => .ok (plain (.output (some register)))
  | .atC, .immediate (.value 0) => .ok (plain (.output none))
  | .memory number, .reg .a => do return plain (.outputPort (← byte first number))
  | .atC, _ | .memory _, _ => invalid .output second
  | _, _ => invalid .output first

/-! ### Reading operands -/

def two (symbols : Symbols) : Parse (Argument × Argument) := do
  let first ← Argument.parse symbols
  Parse.expect .comma "`,`"
  let second ← Argument.parse symbols
  return (first, second)

def oneOrTwo (symbols : Symbols) : Parse (Argument × Option Argument) := do
  let first ← Argument.parse symbols
  if ← Parse.eat .comma then
    let second ← Argument.parse symbols
    return (first, some second)
  else return (first, none)

def noneOrOne (symbols : Symbols) : Parse (Option Argument) := do
  if ← Parse.atLineEnd then return none
  else return some (← Argument.parse symbols)

def ofOne (symbols : Symbols) (choose : Argument → Except Diagnostic Selection) :
    Parse Selection := do
  Parse.ofExcept (choose (← Argument.parse symbols))

def ofTwo (symbols : Symbols) (choose : Argument → Argument → Except Diagnostic Selection) :
    Parse Selection := do
  let (first, second) ← two symbols
  Parse.ofExcept (choose first second)

def ofOneOrTwo (symbols : Symbols) (one : Argument → Except Diagnostic Selection)
    (two : Argument → Argument → Except Diagnostic Selection) : Parse Selection := do
  match ← oneOrTwo symbols with
  | (first, none) => Parse.ofExcept (one first)
  | (first, some second) => Parse.ofExcept (two first second)

def ofNoneOrOne (symbols : Symbols) (none : Selection)
    (one : Argument → Except Diagnostic Selection) : Parse Selection := do
  match ← noneOrOne symbols with
  | .none => return none
  | .some argument => Parse.ofExcept (one argument)

def parse (symbols : Symbols) : Mnemonic → Parse Selection
  | .implied operation => pure (plain (.implied operation))
  | .ld => ofTwo symbols load
  | .ex => ofTwo symbols exchange
  | .push => ofOne symbols (stacked .push · .push)
  | .pop => ofOne symbols (stacked .pop · .pop)
  | .arith operation => ofOneOrTwo symbols (arith8 operation) (arith operation)
  | .inc => ofOne symbols (counted .inc · .incrementWord .increment)
  | .dec => ofOne symbols (counted .dec · .decrementWord .decrement)
  | .shift operation => ofOne symbols (shift operation)
  | .bit operation => ofTwo symbols (bit operation)
  | .jp => ofOneOrTwo symbols jump (conditional .jp · · .jumpIf)
  | .jr => ofOneOrTwo symbols (withDistance .jr · .jumpRelative) relativeConditional
  | .djnz => ofOne symbols (withDistance .djnz · .countDown)
  | .call => ofOneOrTwo symbols call (conditional .call · · .callIf)
  | .ret => ofNoneOrOne symbols (plain .ret) returnIf
  | .rst => ofOne symbols restart
  | .im => ofOne symbols interruptMode
  | .input => ofOneOrTwo symbols inputAlone input
  | .output => ofTwo symbols output

end Selection

end Z80Toolchain
