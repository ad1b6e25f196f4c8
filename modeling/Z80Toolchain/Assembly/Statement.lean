import Z80Toolchain.Assembly.Selection
import Z80Toolchain.Machine.Instruction.Encode

/-!
Statements: an instruction or the data of `db` and `dw`, and their bytes. A statement whose bytes
wait for labels holds zeros there and says where they are.
-/
namespace Z80Toolchain

/-- A label that some bytes wait for. The offset counts from the first of these bytes. -/
structure Reference where
  name : String
  offset : Nat
  width : Width
  addend : Int
  position : Position
deriving DecidableEq, Repr

structure Encoding where
  bytes : List UInt8
  references : List Reference
deriving DecidableEq, Repr

def Target.reference (target : Target) (width : Width) (offset : Nat) : Reference :=
  ⟨target.name, offset, width, target.addend, target.position⟩

/-- The label of an instruction stands in its last bytes. -/
def Selection.encoding (selection : Selection) : Encoding where
  bytes := selection.instruction.encode
  references := selection.target.toList.map fun (width, target) =>
    target.reference width (selection.instruction.encode.length - width.size)

/-! ### Data -/

/-- The bytes of a string, one for each character up to `U+00FF`. -/
def stringBytes (token : Token) : List Char → Except Diagnostic (List UInt8)
  | [] => .ok []
  | c :: rest => do
    if c.toNat ≤ 0xFF then return UInt8.ofNat c.toNat :: (← stringBytes token rest)
    else .error (.atToken token (.valueOutOfRange c.toNat))

def byteNumber (symbols : Symbols) : Parse (List UInt8) := do
  let argument ← Argument.parse symbols
  match argument.operand with
  | .immediate value => return [← Parse.ofExcept (Selection.byte argument value)]
  | _ => Parse.fail (argument.complain (.invalidOperand "db"))

def byteItem (symbols : Symbols) : Parse (List UInt8) := do
  let token ← Parse.peek
  match token.kind with
  | .string text =>
    let _ ← Parse.take
    Parse.ofExcept (stringBytes token text.toList)
  | _ => byteNumber symbols

def wordItem (symbols : Symbols) : Parse (UInt16 × Option Target) := do
  let argument ← Argument.parse symbols
  match argument.operand with
  | .immediate (.value number) => return (← Parse.ofExcept (Selection.word argument number), none)
  | .immediate (.symbol name addend) =>
    return (0, some ⟨name, addend, argument.token.position⟩)
  | _ => Parse.fail (argument.complain (.invalidOperand "dw"))

def itemsUpTo {α : Type} (item : Parse α) : Nat → Parse (List α)
  | 0 => return []
  | count + 1 => do
    let first ← item
    if ← Parse.eat .comma then return first :: (← itemsUpTo item count)
    else return [first]

/-- Items with commas between them. A comma of the line follows each but the last, so there are no
more items than one for each token of the line and one more. -/
def items {α : Type} (item : Parse α) : Parse (List α) :=
  fun cursor => itemsUpTo item (cursor.lineAhead.length + 1) cursor

def Encoding.ofWords (offset : Nat) : List (UInt16 × Option Target) → Encoding
  | [] => ⟨[], []⟩
  | (word, target) :: rest =>
    let after := ofWords (offset + 2) rest
    ⟨wordBytes word ++ after.bytes,
      (target.toList.map fun target => target.reference .absolute offset) ++ after.references⟩

/-! ### Statements -/

inductive Statement
  | instruction (selection : Selection)
  | bytes (items : List (List UInt8))
  | words (items : List (UInt16 × Option Target))
deriving DecidableEq, Repr

namespace Statement

def encoding : Statement → Encoding
  | instruction selection => selection.encoding
  | bytes items => ⟨items.flatten, []⟩
  | words items => .ofWords 0 items

def parseNamed (symbols : Symbols) (head : Token) (name : String) : Parse Statement :=
  match name, Mnemonic.ofName? name with
  | "db", _ => do return bytes (← items (byteItem symbols))
  | "dw", _ => do return words (← items (wordItem symbols))
  | _, some mnemonic => do return instruction (← Selection.parse symbols mnemonic)
  | _, none => Parse.fail (.atToken head (.unknownInstruction name))

def parse (symbols : Symbols) (head : Token) : Parse Statement :=
  match head.kind with
  | .text name => parseNamed symbols head (Text.lower name)
  | _ => Parse.fail (.atToken head (.expected "instruction"))

end Statement

end Z80Toolchain
